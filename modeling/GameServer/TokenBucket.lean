import GameServer.Go
import Mathlib.Data.Rat.Cast.Order
import Mathlib.Tactic.Linarith
import Mathlib.Tactic.Positivity
import Mathlib.Tactic.Ring

/-!
# The token bucket

`AllowN` holds the bucket's lock from the refill to the withdrawal, so calls come
one after another, each with its own reading of the clock. Readings are arbitrary:
they repeat and go back. Tokens are exact fractions here where the code has
`float64`.
-/

namespace GameServer.Reliability

structure TokenBucket where
  capacity : ℚ
  rate : ℚ
  tokens : ℚ
  last : Int
  observer : Bool

def newTokenBucket (capacity : Int) (refillPerSecond : ℚ) (now : Int) (observer : Bool) : TokenBucket :=
  let capacity := if capacity < 1 then 1 else capacity
  let refillPerSecond := if refillPerSecond ≤ 0 then (capacity : ℚ) else refillPerSecond
  ⟨capacity, refillPerSecond, capacity, now, observer⟩

def maxDuration : Int := 2 ^ 63 - 1

def seconds (d : Int) : ℚ := d / 1000000000

namespace TokenBucket

def refill (b : TokenBucket) (now : Int) : TokenBucket :=
  if b.last < now then
    let tokens := b.tokens + seconds (min (now - b.last) maxDuration) * b.rate
    { b with tokens := if b.capacity < tokens then b.capacity else tokens, last := now }
  else b

def allowN (b : TokenBucket) (now n : Int) : Bool × TokenBucket × Option Bool :=
  if n ≤ 0 then (true, b, none)
  else
    let b := b.refill now
    let observed := fun allowed => if b.observer then some allowed else none
    if (n : ℚ) ≤ b.tokens then (true, { b with tokens := b.tokens - n }, observed true)
    else (false, b, observed false)

end TokenBucket

structure AllowCall where
  now : Int
  n : Int

namespace TokenBucket

def after (b : TokenBucket) (call : AllowCall) : TokenBucket := (b.allowN call.now call.n).2.1

def run (b : TokenBucket) (calls : List AllowCall) : TokenBucket := calls.foldl after b

def grant (b : TokenBucket) (call : AllowCall) : Int :=
  if 0 < call.n ∧ (b.allowN call.now call.n).1 = true then call.n else 0

def granted (b : TokenBucket) : List AllowCall → Int
  | [] => 0
  | call :: calls => b.grant call + granted (b.after call) calls

def progress (b : TokenBucket) : List AllowCall → Int
  | [] => 0
  | call :: calls => max 0 ((b.after call).last - b.last) + progress (b.after call) calls

structure Valid (b : TokenBucket) : Prop where
  rate : 0 ≤ b.rate
  nonneg : 0 ≤ b.tokens
  le : b.tokens ≤ b.capacity

/-! ## One call -/

variable {b : TokenBucket}

theorem seconds_nonneg {d : Int} (h : 0 ≤ d) : 0 ≤ seconds d := by
  unfold seconds
  positivity

theorem seconds_mono {d d' : Int} (h : d ≤ d') : seconds d ≤ seconds d' := by
  unfold seconds
  have hcast : (d : ℚ) ≤ d' := by exact_mod_cast h
  linarith

theorem seconds_add (d d' : Int) : seconds (d + d') = seconds d + seconds d' := by
  unfold seconds
  push_cast
  ring

theorem valid_new (capacity : Int) (refillPerSecond : ℚ) (now : Int) (observer : Bool) :
    (newTokenBucket capacity refillPerSecond now observer).Valid := by
  have hcapacity : (0 : ℚ) ≤ ((if capacity < 1 then 1 else capacity : Int) : ℚ) := by
    have hpos : 0 ≤ (if capacity < 1 then 1 else capacity : Int) := by split <;> omega
    exact_mod_cast hpos
  refine ⟨?_, hcapacity, le_refl _⟩
  unfold newTokenBucket
  dsimp only
  split
  · exact hcapacity
  · linarith

theorem Valid.refill (h : b.Valid) (now : Int) : (b.refill now).Valid ∧ (b.refill now).capacity = b.capacity ∧
    (b.refill now).rate = b.rate ∧ b.last ≤ (b.refill now).last ∧
    (b.refill now).tokens ≤ b.tokens + b.rate * seconds ((b.refill now).last - b.last) := by
  unfold TokenBucket.refill
  by_cases hnow : b.last < now
  · rw [if_pos hnow]
    -- `Sub` saturates, so that no more has elapsed than `last` moves
    have hmax : 0 ≤ maxDuration := by decide
    have helapsed : 0 ≤ seconds (min (now - b.last) maxDuration) := seconds_nonneg (by omega)
    have hle : seconds (min (now - b.last) maxDuration) ≤ seconds (now - b.last) := seconds_mono (by omega)
    have hadded := mul_nonneg helapsed h.rate
    have hbound := mul_le_mul_of_nonneg_right hle h.rate
    have hnonneg := h.nonneg
    have hfull := h.le
    dsimp only
    split
    · exact ⟨⟨h.rate, by linarith, le_refl _⟩, rfl, rfl, le_of_lt hnow, by linarith⟩
    · rename_i hroom
      exact ⟨⟨h.rate, by linarith, not_lt.mp hroom⟩, rfl, rfl, le_of_lt hnow, by linarith⟩
  · rw [if_neg hnow]
    have hzero : b.rate * seconds (b.last - b.last) = 0 := by simp [seconds]
    exact ⟨h, rfl, rfl, le_refl _, by linarith⟩

theorem after_cases (b : TokenBucket) (call : AllowCall) :
    (b.after call = b ∧ b.grant call = 0) ∨ (b.after call = b.refill call.now ∧ b.grant call = 0) ∨
      (0 < call.n ∧ (call.n : ℚ) ≤ (b.refill call.now).tokens ∧ b.grant call = call.n ∧
        b.after call = { b.refill call.now with tokens := (b.refill call.now).tokens - call.n }) := by
  by_cases hn : call.n ≤ 0
  · refine .inl ⟨?_, if_neg fun h => absurd h.1 (not_lt.mpr hn)⟩
    unfold after allowN
    rw [if_pos hn]
  refine .inr ?_
  by_cases henough : (call.n : ℚ) ≤ (b.refill call.now).tokens
  · have hcall : b.allowN call.now call.n =
        (true, { b.refill call.now with tokens := (b.refill call.now).tokens - call.n },
          if (b.refill call.now).observer then some true else none) := by
      unfold allowN
      rw [if_neg hn]
      exact if_pos henough
    unfold grant after
    rw [hcall]
    exact .inr ⟨not_le.mp hn, henough, if_pos ⟨not_le.mp hn, rfl⟩, rfl⟩
  · have hcall : b.allowN call.now call.n =
        (false, b.refill call.now, if (b.refill call.now).observer then some false else none) := by
      unfold allowN
      rw [if_neg hn]
      exact if_neg henough
    unfold grant after
    rw [hcall]
    exact .inl ⟨rfl, if_neg fun h => Bool.false_ne_true h.2⟩

theorem Valid.after (h : b.Valid) (call : AllowCall) : (b.after call).Valid ∧ (b.after call).capacity = b.capacity ∧
    (b.after call).rate = b.rate ∧ b.last ≤ (b.after call).last ∧
    (b.grant call : ℚ) + (b.after call).tokens ≤ b.tokens + b.rate * seconds ((b.after call).last - b.last) := by
  obtain ⟨hvalid, hcapacity, hrate, hlast, hadded⟩ := h.refill call.now
  rcases after_cases b call with ⟨hafter, hgrant⟩ | ⟨hafter, hgrant⟩ | ⟨hpos, henough, hgrant, hafter⟩
  · have hzero : b.rate * seconds (b.last - b.last) = 0 := by simp [seconds]
    rw [hafter, hgrant]
    exact ⟨h, rfl, rfl, le_refl _, by push_cast; linarith⟩
  · rw [hafter, hgrant]
    exact ⟨hvalid, hcapacity, hrate, hlast, by push_cast; linarith⟩
  · have hn : (0 : ℚ) ≤ call.n := by exact_mod_cast le_of_lt hpos
    have hfull := hvalid.le
    rw [hafter, hgrant]
    refine ⟨⟨hvalid.rate, ?_, ?_⟩, hcapacity, hrate, hlast, ?_⟩
    · dsimp only
      linarith
    · dsimp only
      linarith
    · dsimp only
      linarith

/-! ## Sequences of calls -/

theorem Valid.run : ∀ (calls : List AllowCall) {b : TokenBucket}, b.Valid →
    (b.run calls).Valid ∧ (b.run calls).capacity = b.capacity ∧ (b.run calls).rate = b.rate ∧
      (b.granted calls : ℚ) + (b.run calls).tokens ≤ b.tokens + b.rate * seconds (b.progress calls)
  | [], b, h => by
    refine ⟨h, rfl, rfl, ?_⟩
    simp [granted, progress, TokenBucket.run, seconds]
  | call :: calls, b, h => by
    obtain ⟨hvalid, hcapacity, hrate, hlast, hgrant⟩ := h.after call
    obtain ⟨hvalid', hcapacity', hrate', hrest⟩ := Valid.run calls hvalid
    refine ⟨hvalid', hcapacity'.trans hcapacity, hrate'.trans hrate, ?_⟩
    -- `last` does not go back in a call, so the progress of the calls adds up
    have hforward : max 0 ((b.after call).last - b.last) = (b.after call).last - b.last := by omega
    have hrun : b.run (call :: calls) = (b.after call).run calls := rfl
    have hsplit : b.rate * seconds (b.progress (call :: calls)) =
        b.rate * seconds ((b.after call).last - b.last) + b.rate * seconds ((b.after call).progress calls) := by
      rw [progress, hforward, seconds_add, mul_add]
    rw [hrate] at hrest
    rw [hrun, hsplit, granted]
    push_cast
    linarith

/-- Whatever the readings of the clock, the tokens stay between zero and the
capacity, and a window of calls is granted the capacity and what the rate gives
for the progress of `last` in it at most. -/
theorem rate_bound (capacity : Int) (refillPerSecond : ℚ) (created : Int) (observer : Bool) (before window : List AllowCall) :
    let b := newTokenBucket capacity refillPerSecond created observer
    (0 ≤ (b.run before).tokens ∧ (b.run before).tokens ≤ b.capacity) ∧
      ((b.run before).granted window : ℚ) ≤ b.capacity + b.rate * seconds ((b.run before).progress window) := by
  intro b
  obtain ⟨hvalid, hcapacity, hrate, -⟩ := Valid.run before (valid_new capacity refillPerSecond created observer)
  obtain ⟨hvalid', -, -, hgranted⟩ := Valid.run window hvalid
  have hfull := hvalid.le
  have hleft := hvalid'.nonneg
  rw [hcapacity] at hfull
  rw [hrate] at hgranted
  refine ⟨⟨hvalid.nonneg, hfull⟩, ?_⟩
  linarith

/-- A burst of two is granted, a third call right after it is not, and after half
a second at two a second one more is. -/
example : (newTokenBucket 2 2 0 false).granted [⟨0, 1⟩, ⟨0, 1⟩, ⟨-5, 1⟩, ⟨500000000, 1⟩] = 3 := by decide +kernel

end TokenBucket

end GameServer.Reliability
