import Mathlib.Data.List.Basic

/-!
# Buffered channels

A channel together with what has gone into it and come out of it: values leave it
in the order in which they were sent, none is lost or doubled, and no more than
its capacity are in it. The channel carries both facts, so that whoever uses it
has them in every state.
-/

namespace GameServer

structure Chan (α : Type) (cap : Nat) where
  sent : List α
  received : List α
  buffer : List α
  fifo : sent = received ++ buffer
  bounded : buffer.length ≤ cap

namespace Chan

variable {α : Type} {cap : Nat} {c c' : Chan α cap} {a : α}

def make : Chan α cap := ⟨[], [], [], rfl, Nat.zero_le _⟩

/-- The send of a `select`: `none` if the buffer is full. -/
def trySend (c : Chan α cap) (a : α) : Option (Chan α cap) :=
  if h : c.buffer.length < cap then
    some ⟨c.sent ++ [a], c.received, c.buffer ++ [a], by rw [c.fifo, List.append_assoc],
      by rw [List.length_append]; exact h⟩
  else none

/-- The receive of a `select`: `none` if the buffer is empty. -/
def tryRecv (c : Chan α cap) : Option (α × Chan α cap) :=
  match h : c.buffer with
  | [] => none
  | a :: rest =>
    some (a, ⟨c.sent, c.received ++ [a], rest, by rw [c.fifo, h, List.append_assoc]; rfl,
      have hle := c.bounded; by rw [h, List.length_cons] at hle; exact Nat.le_of_succ_le hle⟩)

theorem trySend_eq_some (h : c.trySend a = some c') : c'.sent = c.sent ++ [a] ∧ c'.received = c.received := by
  unfold trySend at h
  split at h
  · cases h
    exact ⟨rfl, rfl⟩
  · cases h

theorem tryRecv_eq_some (h : c.tryRecv = some (a, c')) : c'.sent = c.sent ∧ c'.received = c.received ++ [a] := by
  unfold tryRecv at h
  split at h
  · cases h
  · cases h
    exact ⟨rfl, rfl⟩

end Chan

end GameServer
