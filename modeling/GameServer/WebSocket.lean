import GameServer.Channel
import Mathlib.Data.List.Induction

/-!
# The connections of a gateway that drains

A request passes the check of `accepting`, is upgraded and stored in the handler's
map, is served by its two pumps, and is deleted once it is closed. `Drain` refuses
further requests and closes what `Range` finds in the map: every connection that is
in it from the beginning to the end of the call, and perhaps some that are stored
meanwhile. Requests, senders, pumps and the drain interleave freely.
-/

namespace GameServer.Gateway.WebSocket

/-- Where `Handle` is: refused, past the check, in the map, or out of it. -/
inductive Phase
  | refused
  | checked
  | stored
  | gone
  deriving DecidableEq

/-- `early` says that the request came before the drain, `written` is what reached
the socket, `pending` says that `CloseAll` has yet to come to the connection, and
`late` that it was stored after `CloseAll` had begun. -/
structure Connection (α : Type) where
  early : Bool
  phase : Phase
  send : Chan α 64 := .make
  closed : Bool := false
  writing : Bool := true
  written : List α := []
  pending : Bool := false
  late : Bool := false

inductive Sweep
  | before
  | running
  | finished
  deriving DecidableEq

namespace Connection

variable {α : Type} (c : Connection α)

/-- `Send`. -/
def offer (payload : α) : Connection α :=
  if c.closed then c
  else
    match c.send.trySend payload with
    | some send => { c with send }
    | none => c

def close : Connection α := { c with closed := true }

/-- The case of `writePump` that has a payload. A write can succeed after `closed` is
set, as long as the socket is not closed. -/
def write (ok : Bool) : Connection α :=
  if c.writing then
    match c.send.tryRecv with
    | none => c
    | some (payload, send) =>
      if ok then { c with send, written := c.written ++ [payload] }
      else { c with send, writing := false, closed := true }
  else c

/-- A ping that fails, or `done`. -/
def stopWriting : Connection α :=
  { c with writing := false, closed := true }

def store (sweep : Sweep) : Connection α :=
  if c.phase = .checked then { c with phase := .stored, late := decide (sweep ≠ .before) } else c

/-- An upgrade or a connection id that fails. -/
def abandon : Connection α :=
  if c.phase = .checked then { c with phase := .gone, closed := true } else c

def delete : Connection α :=
  if c.phase = .stored ∧ c.closed then { c with phase := .gone, pending := false } else c

def visit : Connection α :=
  if c.phase = .stored then { c with closed := true, pending := false } else c

end Connection

structure Module (α : Type) where
  ready : Bool := true
  draining : Bool := false
  sweep : Sweep := .before
  connections : List (Connection α) := []

inductive Action (α : Type)
  | arrive
  | store (i : Nat)
  | abandon (i : Nat)
  | send (i : Nat) (payload : α)
  | write (i : Nat) (ok : Bool)
  | stopWriting (i : Nat)
  | close (i : Nat)
  | delete (i : Nat)
  | beginDrain
  | closeAll
  | visit (i : Nat)
  | closedAll

variable {α : Type}

namespace Module

def isReady (m : Module α) : Bool := m.ready && !m.draining

def modify (m : Module α) (i : Nat) (f : Connection α → Connection α) : Module α :=
  { m with connections := m.connections.modify i f }

def step (m : Module α) : Action α → Module α
  | .arrive =>
    let phase := if m.isReady then .checked else .refused
    { m with connections := m.connections ++ [{ early := !m.draining, phase }] }
  | .store i => m.modify i (·.store m.sweep)
  | .abandon i => m.modify i (·.abandon)
  | .send i payload => m.modify i (·.offer payload)
  | .write i ok => m.modify i (·.write ok)
  | .stopWriting i => m.modify i (·.stopWriting)
  | .close i => m.modify i (·.close)
  | .delete i => m.modify i (·.delete)
  | .beginDrain => { m with ready := false, draining := true }
  | .closeAll =>
    if m.draining ∧ m.sweep = .before then
      { m with
        sweep := .running
        connections := m.connections.map fun c => { c with pending := decide (c.phase = .stored) } }
    else m
  | .visit i => if m.sweep = .running then m.modify i (·.visit) else m
  | .closedAll =>
    if m.sweep = .running ∧ m.connections.all (!·.pending) then { m with sweep := .finished } else m

def run (acts : List (Action α)) : Module α := acts.foldl step {}

end Module

/-! ## What holds of every connection -/

/-- The last field is the sweep's: an open connection in the map is one that
`CloseAll` has not begun to look for, has yet to come to, or need not have seen. -/
structure Connection.Sound (sweep : Sweep) (c : Connection α) : Prop where
  early : c.phase ≠ .refused → c.early = true
  written : c.written <+: c.send.received
  writing : c.writing = true → c.written = c.send.received
  swept : c.phase = .stored → c.closed = false →
    sweep = .before ∨ c.late = true ∨ sweep = .running ∧ c.pending = true

namespace Connection.Sound

variable {sweep : Sweep} {c : Connection α}

theorem offer (h : c.Sound sweep) (payload : α) : (c.offer payload).Sound sweep := by
  unfold Connection.offer
  split
  · exact h
  · split
    · next send hsend =>
      obtain ⟨-, hreceived⟩ := Chan.trySend_eq_some hsend
      exact ⟨h.early, hreceived ▸ h.written, hreceived ▸ h.writing, h.swept⟩
    · exact h

theorem write (h : c.Sound sweep) (ok : Bool) : (c.write ok).Sound sweep := by
  unfold Connection.write
  split
  · next hwriting =>
    have heq := h.writing hwriting
    split
    · exact h
    · next payload send hrecv =>
      obtain ⟨-, hreceived⟩ := Chan.tryRecv_eq_some hrecv
      split
      · have hnext : c.written ++ [payload] = send.received := by rw [hreceived, heq]
        exact ⟨h.early, hnext ▸ List.prefix_rfl, fun _ => hnext, h.swept⟩
      · exact ⟨h.early, hreceived ▸ h.written.trans (List.prefix_append _ _), nofun, nofun⟩
  · exact h

theorem store (h : c.Sound sweep) : (c.store sweep).Sound sweep := by
  unfold Connection.store
  split
  · next hphase =>
    refine ⟨fun _ => h.early (hphase ▸ nofun), h.written, h.writing, fun _ _ => ?_⟩
    by_cases hs : sweep = .before
    · exact .inl hs
    · exact .inr (.inl (decide_eq_true hs))
  · exact h

end Connection.Sound

namespace Module

variable {m : Module α}

def Sound (m : Module α) : Prop := ∀ c ∈ m.connections, c.Sound m.sweep

theorem Sound.modify (h : m.Sound) (i : Nat) {f : Connection α → Connection α}
    (hf : ∀ c, c.Sound m.sweep → (f c).Sound m.sweep) : (m.modify i f).Sound := by
  intro c hc
  obtain ⟨k, hk⟩ := List.mem_iff_getElem?.mp hc
  rw [Module.modify, List.getElem?_modify] at hk
  obtain ⟨c', hc', rfl⟩ := Option.map_eq_some_iff.mp hk
  have hs := h c' (List.mem_of_getElem? hc')
  split
  · exact hf c' hs
  · exact hs

theorem Sound.step (h : m.Sound) (a : Action α) : (m.step a).Sound := by
  cases a with
  | arrive =>
    intro c hc
    rcases List.mem_append.mp hc with hc | hc
    · exact h c hc
    · rw [List.mem_singleton.mp hc]
      refine ⟨fun hp => ?_, List.prefix_rfl, fun _ => rfl, fun hp => ?_⟩
      · by_contra hlate
        exact hp (if_neg fun hready => hlate (Bool.and_eq_true_iff.mp hready).2)
      · dsimp only at hp
        split at hp <;> cases hp
  | store i => exact h.modify i fun c hc => hc.store
  | send i payload => exact h.modify i fun c hc => hc.offer payload
  | write i ok => exact h.modify i fun c hc => hc.write ok
  | stopWriting i => exact h.modify i fun c hc => ⟨hc.early, hc.written, nofun, nofun⟩
  | close i => exact h.modify i fun c hc => ⟨hc.early, hc.written, hc.writing, nofun⟩
  | abandon i =>
    refine h.modify i fun c hc => ?_
    unfold Connection.abandon
    split
    · next hphase => exact ⟨fun _ => hc.early (hphase ▸ nofun), hc.written, hc.writing, nofun⟩
    · exact hc
  | delete i =>
    refine h.modify i fun c hc => ?_
    unfold Connection.delete
    split
    · next hphase => exact ⟨fun _ => hc.early (hphase.1 ▸ nofun), hc.written, hc.writing, nofun⟩
    · exact hc
  | beginDrain => exact h
  | closeAll =>
    simp only [Module.step]
    split
    · intro c hc
      obtain ⟨c', hc', rfl⟩ := List.mem_map.mp hc
      exact ⟨(h c' hc').early, (h c' hc').written, (h c' hc').writing,
        fun hp _ => .inr (.inr ⟨rfl, decide_eq_true hp⟩)⟩
    · exact h
  | visit i =>
    simp only [Module.step]
    split
    · refine h.modify i fun c hc => ?_
      unfold Connection.visit
      split
      · exact ⟨hc.early, hc.written, hc.writing, nofun⟩
      · exact hc
    · exact h
  | closedAll =>
    simp only [Module.step]
    split
    · next hall =>
      intro c hc
      refine ⟨(h c hc).early, (h c hc).written, (h c hc).writing, fun hp ho => .inr (.inl ?_)⟩
      have hpending := List.all_eq_true.mp hall.2 c hc
      rcases (h c hc).swept hp ho with hs | hs | ⟨-, hs⟩
      · rw [hall.1] at hs
        cases hs
      · exact hs
      · rw [hs] at hpending
        cases hpending
    · exact h

theorem sound_run (acts : List (Action α)) : (run acts).Sound := by
  induction acts using List.reverseRecOn with
  | nil => exact nofun
  | append_singleton acts a ih =>
    rw [run, List.foldl_append]
    exact ih.step a

/-- No request that comes after the drain has begun gets a connection, and what
reaches a socket is a prefix of what its buffer took. Once `CloseAll` has returned,
only a connection stored after its beginning can be open in the map, and there are
runs that leave one. -/
theorem drain_leaves_late :
    (∀ acts : List (Action α), ∀ c ∈ (run acts).connections,
      (c.phase ≠ .refused → c.early = true) ∧ c.send.buffer.length ≤ 64 ∧ c.written <+: c.send.sent ∧
      ((run acts).sweep = .finished → c.phase = .stored → c.closed = false → c.late = true)) ∧
    ∃ acts : List (Action α), (run acts).sweep = .finished ∧
      ∃ c ∈ (run acts).connections, c.phase = .stored ∧ c.closed = false := by
  constructor
  · intro acts c hc
    have h := sound_run acts c hc
    refine ⟨h.early, c.send.bounded, ?_, fun hs hp ho => ?_⟩
    · rw [c.send.fifo]
      exact h.written.trans (List.prefix_append _ _)
    · rcases h.swept hp ho with hb | hl | ⟨hr, -⟩
      · rw [hs] at hb
        cases hb
      · exact hl
      · rw [hs] at hr
        cases hr
  · exact ⟨[.arrive, .beginDrain, .closeAll, .closedAll, .store 0], rfl, _, .head _, rfl, rfl⟩

end Module

end GameServer.Gateway.WebSocket
