import GameServer.Journal
import GameServer.Streaming
import Mathlib.Tactic.Positivity

/-!
# Retries

`RetryPolicy.Do` as a program: the operation, the observer, the clock and the
wait between two attempts are its commands. Durations are 64-bit: the delay of an
attempt is the initial one, shifted left by the attempt's index and then capped.
-/

namespace GameServer.Reliability.Retry

open Prog

abbrev Duration := Int64

def millisecond : Duration := 1000000
def second : Duration := 1000000000

def shiftLeft (d : Duration) (n : Nat) : Duration := .ofBitVec (d.toBitVec <<< n)

structure RetryPolicy where
  maxAttempts : Int
  initialDelay : Duration
  maxDelay : Duration
  shouldRetry : Option (GoErr → Bool)
  observer : Bool

namespace RetryPolicy

def withDefaults (p : RetryPolicy) : RetryPolicy :=
  { p with
    maxAttempts := if p.maxAttempts ≤ 0 then 1 else p.maxAttempts
    initialDelay := if p.initialDelay ≤ 0 then 10 * millisecond else p.initialDelay
    maxDelay := if p.maxDelay ≤ 0 then second else p.maxDelay }

def delay (p : RetryPolicy) (attempt : Nat) : Duration :=
  let delay := shiftLeft p.initialDelay attempt
  if p.maxDelay < delay then p.maxDelay else delay

def retries (p : RetryPolicy) (err : GoErr) : Bool := p.shouldRetry.elim true (· err)

end RetryPolicy

inductive Cmd
  | now
  | onAttempt (attempt : Nat)
  | operation
  | onRetry (attempt : Nat) (err : GoErr)
  | onComplete (attempts : Nat) (exhausted : Bool) (err : Option GoErr) (duration : Int)
  | wait (delay : Duration)

abbrev Ans : Cmd → Type
  | .now => Int
  | .operation | .wait _ => Option GoErr
  | .onAttempt _ | .onRetry _ _ | .onComplete _ _ _ _ => Unit

namespace RetryPolicy

def observe (p : RetryPolicy) (c : Prog Ans Unit) : Prog Ans Unit := if p.observer then c else return ()

def complete (p : RetryPolicy) (startedAt : Int) (attempts : Nat) (exhausted : Bool) (err : Option GoErr) : Prog Ans Unit :=
  p.observe do
    let finishedAt ← perform Cmd.now
    perform (Cmd.onComplete attempts exhausted err (finishedAt - startedAt))

def attempts (p : RetryPolicy) (startedAt : Int) : Nat → Nat → Option GoErr → Prog Ans (Option GoErr)
  | 0, _, err => do
    p.complete startedAt p.maxAttempts.toNat (1 < p.maxAttempts) err
    return err
  | n + 1, attempt, _ => do
    p.observe (perform (Cmd.onAttempt (attempt + 1)))
    match ← perform Cmd.operation with
    | none =>
      p.complete startedAt (attempt + 1) false none
      return none
    | some err =>
      if (attempt + 1 : Int) < p.maxAttempts ∧ p.retries err = true then
        p.observe (perform (Cmd.onRetry (attempt + 1) err))
        match ← perform (Cmd.wait (p.delay attempt)) with
        | none => p.attempts startedAt n (attempt + 1) (some err)
        | some ctxErr =>
          p.complete startedAt (attempt + 1) false (some ctxErr)
          return some ctxErr
      else
        p.complete startedAt (attempt + 1) (0 < attempt ∧ p.maxAttempts ≤ attempt + 1) (some err)
        return some err

def doOperation (p : RetryPolicy) : Prog Ans (Option GoErr) := do
  let p := p.withDefaults
  let startedAt ← perform Cmd.now
  p.attempts startedAt p.maxAttempts.toNat 0 none

end RetryPolicy

/-! ## Runs -/

/-- What comes from outside: the clock, how the operation ends, and whether the
context ends during a wait. -/
structure Env where
  now : Int := 0
  result : Option GoErr := none
  done : Option GoErr := none

def answer (e : Env) (waited : List Duration) : (c : Cmd) → Ans c × List Duration
  | .now => (e.now, waited)
  | .onAttempt _ | .onRetry _ _ | .onComplete _ _ _ _ => ((), waited)
  | .operation => (e.result, waited)
  | .wait delay => (e.done, waited ++ [delay])

def RetryPolicy.waited (p : RetryPolicy) (es : Nat → Env) : List Duration := (p.doOperation.alone answer es []).2

def Quiet : Cmd → Prop
  | .wait _ => False
  | _ => True

theorem answer_quiet (e : Env) (waited : List Duration) (c : Cmd) (hc : Quiet c) : (answer e waited c).2 = waited := by
  cases c with
  | wait delay => exact hc.elim
  | _ => rfl

variable {p : RetryPolicy} {err : GoErr}

theorem uses_observe {P : Cmd → Prop} {c : Prog Ans Unit} (hc : c.Uses P) : (p.observe c).Uses P := by
  unfold RetryPolicy.observe
  split
  · exact hc
  · trivial

theorem uses_onAttempt (attempt : Nat) : (p.observe (perform (Cmd.onAttempt attempt))).Uses Quiet :=
  uses_observe ⟨trivial, fun _ => trivial⟩

theorem uses_onRetry (attempt : Nat) (err : GoErr) : (p.observe (perform (Cmd.onRetry attempt err))).Uses Quiet :=
  uses_observe ⟨trivial, fun _ => trivial⟩

theorem uses_complete (startedAt : Int) (attempts : Nat) (exhausted : Bool) (err : Option GoErr) :
    (p.complete startedAt attempts exhausted err).Uses Quiet :=
  uses_observe ⟨trivial, fun _ => ⟨trivial, fun _ => trivial⟩⟩

/-- `l` is `w` and then the delays of attempts that follow one another from
`attempt` on; the last attempt is not waited after. -/
def Waits (p : RetryPolicy) (attempt : Nat) (w l : List Duration) : Prop :=
  ∃ k : Nat, (k = 0 ∨ ((attempt + k : Int) < p.maxAttempts ∧ ∃ err, p.retries err = true)) ∧
    l = w ++ (List.range' attempt k).map p.delay

theorem Waits.none (p : RetryPolicy) (attempt : Nat) (w : List Duration) : Waits p attempt w w :=
  ⟨0, .inl rfl, by simp⟩

theorem Waits.cons {attempt : Nat} {w l : List Duration} (h : Waits p (attempt + 1) (w ++ [p.delay attempt]) l)
    (hleft : (attempt + 1 : Int) < p.maxAttempts) (herr : p.retries err = true) : Waits p attempt w l := by
  obtain ⟨k, hk, rfl⟩ := h
  refine ⟨k + 1, .inr ⟨?_, err, herr⟩, by simp [List.range'_succ]⟩
  rcases hk with rfl | ⟨hk, -⟩
  · simpa using hleft
  · push_cast at hk ⊢
    omega

theorem waits_bind {α β : Type} {q : Prog Ans α} (hq : q.Uses Quiet) {f : α → Prog Ans β} {attempt : Nat} {es : Nat → Env}
    {w w' : List Duration} (hf : ∀ a es', Waits p attempt w ((f a).alone answer es' w').2) :
    Waits p attempt w ((q >>= f).alone answer es w').2 := by
  obtain ⟨es', hbind⟩ := exists_alone_bind f q es w'
  rw [hbind, hq.alone answer_quiet]
  exact hf _ es'

theorem waits_attempts (startedAt : Int) : ∀ (n attempt : Nat) (last : Option GoErr) (es : Nat → Env) (w : List Duration),
    Waits p attempt w ((p.attempts startedAt n attempt last).alone answer es w).2
  | 0, attempt, last, es, w => waits_bind (uses_complete ..) fun _ _ => .none ..
  | n + 1, attempt, last, es, w => by
    refine waits_bind (uses_onAttempt _) fun _ es => ?_
    simp only [perform_bind, Prog.alone, answer]
    cases (es 0).result with
    | none => exact waits_bind (uses_complete ..) fun _ _ => .none ..
    | some err =>
      by_cases hretry : (attempt + 1 : Int) < p.maxAttempts ∧ p.retries err = true
      · simp only [if_pos hretry]
        refine waits_bind (uses_onRetry _ _) fun _ es => ?_
        -- the delay counts even if the context ends while it is waited
        refine Waits.cons ?_ hretry.1 hretry.2
        simp only [Prog.alone, answer]
        cases (es 0).done with
        | none => exact waits_attempts startedAt n (attempt + 1) (some err) _ _
        | some ctxErr => exact waits_bind (uses_complete ..) fun _ _ => .none ..
      · simp only [if_neg hretry]
        exact waits_bind (uses_complete ..) fun _ _ => .none ..

theorem waits_doOperation (p : RetryPolicy) (es : Nat → Env) : Waits p.withDefaults 0 [] (p.waited es) :=
  waits_attempts (es 0).now _ 0 none _ []

theorem attempts_failing (startedAt : Int) {e : Env} (hresult : e.result = some err) (hdone : e.done = none)
    (herr : p.retries err = true) : ∀ (n attempt : Nat) (last : Option GoErr) (w : List Duration),
    (attempt + n + 1 : Int) = p.maxAttempts →
    ((p.attempts startedAt (n + 1) attempt last).alone answer (fun _ => e) w).2 = w ++ (List.range' attempt n).map p.delay
  | n, attempt, last, w, hmax => by
    rw [RetryPolicy.attempts, alone_bind, (uses_onAttempt _).alone answer_quiet]
    simp only [perform_bind, Prog.alone, answer, hresult]
    cases n with
    | zero =>
      rw [if_neg fun h => absurd h.1 (by omega)]
      rw [alone_bind, (uses_complete ..).alone answer_quiet]
      simp [Prog.alone]
    | succ n =>
      rw [if_pos ⟨by push_cast at hmax; omega, herr⟩]
      rw [alone_bind, (uses_onRetry _ _).alone answer_quiet]
      simp only [Prog.alone, answer, hdone]
      rw [attempts_failing startedAt hresult hdone herr n (attempt + 1) (some err) _ (by push_cast at hmax ⊢; omega)]
      simp [List.range'_succ]

theorem waited_failing {e : Env} (hresult : e.result = some err) (hdone : e.done = none) (herr : p.retries err = true)
    {k : Nat} (hmax : p.withDefaults.maxAttempts = k + 1) :
    p.waited (fun _ => e) = (List.range k).map p.withDefaults.delay := by
  have hrun := attempts_failing (p := p.withDefaults) e.now hresult hdone herr k 0 none [] (by rw [hmax]; omega)
  have hleft : p.withDefaults.maxAttempts.toNat = k + 1 := by omega
  rw [List.range_eq_range', RetryPolicy.waited, RetryPolicy.doOperation]
  simp only [perform_bind, Prog.alone, answer, hleft]
  exact hrun

/-! ## The delays -/

theorem toInt_shiftLeft {d : Duration} (hd : 0 < d.toInt) (n : Nat) :
    (shiftLeft d n).toInt = (d.toInt * 2 ^ n).bmod (2 ^ 64) := by
  have hnat : (d.toBitVec.toNat : Int) = d.toInt := by
    rw [← Int64.toInt_toBitVec] at hd ⊢
    rw [BitVec.toInt_eq_toNat_cond] at hd ⊢
    split at hd
    · rename_i hsmall
      rw [if_pos hsmall]
    · have := d.toBitVec.isLt
      omega
  unfold shiftLeft
  rw [Int64.toInt_ofBitVec, BitVec.toInt_shiftLeft, Nat.shiftLeft_eq]
  push_cast
  rw [hnat]

def InRange (p : RetryPolicy) (delays : List Duration) : Prop :=
  (∀ d ∈ delays, 0 < d ∧ d ≤ p.maxDelay) ∧ delays.Pairwise (· ≤ ·)

theorem toInt_delay {attempt : Nat} (hd : 0 < p.initialDelay.toInt) (hfits : p.initialDelay.toInt * 2 ^ attempt < 2 ^ 63) :
    (p.delay attempt).toInt = min (p.initialDelay.toInt * 2 ^ attempt) p.maxDelay.toInt := by
  have hpos : 0 < p.initialDelay.toInt * 2 ^ attempt := by positivity
  have hshift : (shiftLeft p.initialDelay attempt).toInt = p.initialDelay.toInt * 2 ^ attempt := by
    rw [toInt_shiftLeft hd]
    exact Int.bmod_eq_of_le (by omega) (by omega)
  unfold RetryPolicy.delay
  dsimp only
  split
  · rename_i hover
    rw [Int64.lt_iff_toInt_lt, hshift] at hover
    omega
  · rename_i hunder
    rw [Int64.lt_iff_toInt_lt, hshift] at hunder
    omega

theorem delay_neg {attempt : Nat} (hd : 0 < p.initialDelay.toInt) (hmax : 0 < p.maxDelay.toInt)
    (hbefore : p.initialDelay.toInt * 2 ^ attempt < 2 ^ 63) (hover : 2 ^ 63 ≤ p.initialDelay.toInt * 2 ^ (attempt + 1)) :
    p.delay (attempt + 1) < 0 := by
  have hdouble : p.initialDelay.toInt * 2 ^ (attempt + 1) = p.initialDelay.toInt * 2 ^ attempt * 2 := by
    rw [pow_succ, mul_assoc]
  -- the product before was below `2 ^ 63`, so this one has reached the sign bit and no further
  have hshift : (shiftLeft p.initialDelay (attempt + 1)).toInt = p.initialDelay.toInt * 2 ^ (attempt + 1) - 2 ^ 64 := by
    rw [toInt_shiftLeft hd, Int.bmod_def, Int.emod_eq_of_lt (by omega) (by omega)]
    exact if_neg (by omega)
  unfold RetryPolicy.delay
  dsimp only
  rw [if_neg]
  · rw [Int64.lt_iff_toInt_lt, hshift, Int64.toInt_zero]
    omega
  · rw [Int64.lt_iff_toInt_lt, hshift]
    omega

theorem withDefaults_pos (p : RetryPolicy) : 0 < p.withDefaults.initialDelay.toInt ∧ 0 < p.withDefaults.maxDelay.toInt ∧
    0 < p.withDefaults.maxAttempts := by
  unfold RetryPolicy.withDefaults
  dsimp only
  refine ⟨?_, ?_, ?_⟩
  · split
    · decide
    · rename_i h
      rw [Int64.le_iff_toInt_le, Int64.toInt_zero] at h
      omega
  · split
    · decide
    · rename_i h
      rw [Int64.le_iff_toInt_le, Int64.toInt_zero] at h
      omega
  · split <;> omega

theorem inRange_of_fits (hd : 0 < p.initialDelay.toInt) (hmax : 0 < p.maxDelay.toInt) {k : Nat}
    (hfits : ∀ attempt < k, p.initialDelay.toInt * 2 ^ attempt < 2 ^ 63) : InRange p ((List.range k).map p.delay) := by
  constructor
  · intro d hmem
    obtain ⟨attempt, hattempt, rfl⟩ := List.mem_map.mp hmem
    have hdelay := toInt_delay hd (hfits attempt (List.mem_range.mp hattempt))
    have hpos : 0 < p.initialDelay.toInt * 2 ^ attempt := by positivity
    rw [Int64.lt_iff_toInt_lt, Int64.le_iff_toInt_le, hdelay, Int64.toInt_zero]
    omega
  · refine List.pairwise_map.mpr (List.pairwise_lt_range.imp_of_mem fun {a b} ha hb hab => ?_)
    have hle : p.initialDelay.toInt * 2 ^ a ≤ p.initialDelay.toInt * 2 ^ b :=
      Int.mul_le_mul_of_nonneg_left (pow_le_pow_right₀ (by decide) (le_of_lt hab)) (le_of_lt hd)
    rw [Int64.le_iff_toInt_le, toInt_delay hd (hfits a (List.mem_range.mp ha)),
      toInt_delay hd (hfits b (List.mem_range.mp hb))]
    omega

theorem exists_delay_neg (hd : 0 < p.initialDelay.toInt) (hmax : 0 < p.maxDelay.toInt) {attempt : Nat}
    (hover : 2 ^ 63 ≤ p.initialDelay.toInt * 2 ^ attempt) : ∃ a ≤ attempt, p.delay a < 0 := by
  induction attempt with
  | zero =>
    have hlt := p.initialDelay.toInt_lt
    omega
  | succ attempt ih =>
    by_cases hbefore : 2 ^ 63 ≤ p.initialDelay.toInt * 2 ^ attempt
    · obtain ⟨a, ha, hneg⟩ := ih hbefore
      exact ⟨a, Nat.le_succ_of_le ha, hneg⟩
    · exact ⟨attempt + 1, Nat.le_refl _, delay_neg hd hmax (by omega) hover⟩

/-- Every delay that a call of `Do` waits is positive, at most the cap and not
smaller than the one before, exactly if no shift of an attempt that can be waited
after leaves the positive 64-bit numbers. -/
theorem backoff_in_range_iff (p : RetryPolicy) :
    (∀ es, InRange p.withDefaults (p.waited es)) ↔
      ∀ attempt : Nat, (attempt + 1 : Int) < p.withDefaults.maxAttempts → (∃ err, p.retries err = true) →
        p.withDefaults.initialDelay.toInt * 2 ^ attempt < 2 ^ 63 := by
  obtain ⟨hd, hmax, hattempts⟩ := withDefaults_pos p
  constructor
  · rintro hrange attempt hattempt ⟨err, herr⟩
    refine not_le.mp fun hover => ?_
    obtain ⟨a, ha, hneg⟩ := exists_delay_neg hd hmax hover
    obtain ⟨k, hk⟩ : ∃ k : Nat, p.withDefaults.maxAttempts = k + 1 := ⟨(p.withDefaults.maxAttempts - 1).toNat, by omega⟩
    have hall := hrange fun _ => { result := some err }
    rw [waited_failing rfl rfl herr hk] at hall
    have hmem : p.withDefaults.delay a ∈ (List.range k).map p.withDefaults.delay :=
      List.mem_map_of_mem (List.mem_range.mpr (by omega))
    exact Int64.lt_irrefl (Int64.lt_trans hneg (hall.1 _ hmem).1)
  · intro hfits es
    obtain ⟨k, hk, hwaited⟩ := waits_doOperation p es
    rw [hwaited, List.nil_append, ← List.range_eq_range']
    refine inRange_of_fits hd hmax fun attempt hattempt => ?_
    rcases hk with rfl | ⟨hk, herr⟩
    · exact absurd hattempt (Nat.not_lt_zero _)
    · exact hfits attempt (by push_cast at hk; omega) herr

def publisherRetry (retryAttempts : Int) : RetryPolicy where
  maxAttempts := retryAttempts
  initialDelay := 50 * millisecond
  maxDelay := 500 * millisecond
  shouldRetry := some fun _ => true
  observer := false

theorem publisher_waits_negative :
    let e : Env := { result := some Streaming.errConnectionClosed }
    ((publisherRetry 40).waited fun _ => e).getLast? = some ((publisherRetry 40).delay 38) ∧ (publisherRetry 40).delay 38 < 0 ∧
      ¬ InRange (publisherRetry 40).withDefaults ((publisherRetry 40).waited fun _ => e) := by
  intro e
  have hwaited : (publisherRetry 40).waited (fun _ => e) = (List.range 39).map (publisherRetry 40).withDefaults.delay :=
    waited_failing rfl rfl rfl rfl
  have hneg : (publisherRetry 40).delay 38 < 0 := by decide
  rw [hwaited]
  refine ⟨rfl, hneg, fun hrange => ?_⟩
  have hmem : (publisherRetry 40).withDefaults.delay 38 ∈ (List.range 39).map (publisherRetry 40).withDefaults.delay :=
    List.mem_map_of_mem (by decide)
  exact absurd (hrange.1 _ hmem).1 (by decide)

/-! ## The attempts -/

/-- What a call has met: how its attempts ended, oldest first, and the error of
the context if that ended a wait. -/
structure Progress where
  tries : List (Option GoErr) := []
  ended : Option GoErr := none

def Progress.next (q : Progress) : (c : Cmd) → Ans c → Progress
  | .operation, r => { q with tries := q.tries ++ [r] }
  | .wait _, r => { q with ended := r }
  | _, _ => q

/-- An attempt is left, and every one before failed with an error to be retried. -/
def Progress.Allowed (p : RetryPolicy) (q : Progress) : Cmd → Prop
  | .operation => q.tries.length < p.maxAttempts.toNat ∧ ∀ r ∈ q.tries, ∃ err, r = some err ∧ p.retries err = true
  | _ => True

/-- The call returns what its last attempt returned, once there is no reason to
try again, or the error of the context that ended the wait for the next one. -/
structure Outcome (p : RetryPolicy) (q : Progress) (result : Option GoErr) : Prop where
  few : q.tries.length ≤ p.maxAttempts.toNat
  failed : ∀ r ∈ q.tries.dropLast, ∃ err, r = some err ∧ p.retries err = true
  last : (q.tries.getLast? = some result ∧
      ∀ err, result = some err → p.retries err = false ∨ q.tries.length = p.maxAttempts.toNat) ∨
    ∃ err, q.tries.getLast? = some (some err) ∧ p.retries err = true ∧ q.tries.length < p.maxAttempts.toNat ∧
      q.ended.isSome ∧ result = q.ended

def Silent : Cmd → Prop
  | .operation | .wait _ => False
  | _ => True

theorem silent_stays (q : Progress) (c : Cmd) (hc : Silent c) : q.Allowed p c ∧ ∀ r, q.next c r = q := by
  cases c with
  | operation | wait _ => exact hc.elim
  | _ => exact ⟨trivial, fun _ => rfl⟩

theorem obeys_silent {α β : Type} {post : Progress → β → Prop} {q : Progress} {u : Prog Ans α} {f : α → Prog Ans β}
    (hu : u.Uses Silent) (hf : ∀ a, (f a).Obeys (Progress.Allowed p) Progress.next post q) :
    (u >>= f).Obeys (Progress.Allowed p) Progress.next post q := by
  refine Obeys.bind ((Obeys.of_uses (silent_stays q) hu).mono fun q' a heq => ?_)
  rw [heq]
  exact hf a

theorem silent_complete (startedAt : Int) (attempts : Nat) (exhausted : Bool) (err : Option GoErr) :
    (p.complete startedAt attempts exhausted err).Uses Silent :=
  uses_observe ⟨trivial, fun _ => ⟨trivial, fun _ => trivial⟩⟩

theorem obeys_attempts (startedAt : Int) : ∀ (n : Nat) (last : Option GoErr) (q : Progress),
    q.tries.length + n = p.maxAttempts.toNat → (∀ r ∈ q.tries, ∃ err, r = some err ∧ p.retries err = true) →
    (n = 0 → q.tries.getLast? = some last) →
    (p.attempts startedAt n q.tries.length last).Obeys (Progress.Allowed p) Progress.next (Outcome p) q
  | 0, last, q, hlen, hfailed, hlast => by
    refine obeys_silent (silent_complete ..) fun _ => ⟨by omega, fun r hr => hfailed r (List.mem_of_mem_dropLast hr), ?_⟩
    exact .inl ⟨hlast rfl, fun _ _ => .inr (by omega)⟩
  | n + 1, last, q, hlen, hfailed, _ => by
    have hmax : (p.maxAttempts.toNat : Int) = p.maxAttempts := by omega
    refine obeys_silent (uses_observe ⟨trivial, fun _ => trivial⟩) fun _ => ?_
    simp only [perform_bind]
    refine ⟨⟨by omega, hfailed⟩, fun r => ?_⟩
    have hlen' : (q.next .operation r).tries.length = q.tries.length + 1 := by simp [Progress.next]
    have hget : (q.next .operation r).tries.getLast? = some r := by simp [Progress.next]
    have hdrop : (q.next .operation r).tries.dropLast = q.tries := by simp [Progress.next]
    cases r with
    | none =>
      refine obeys_silent (silent_complete ..) fun _ => ⟨by omega, hdrop ▸ hfailed, .inl ⟨hget, fun _ h => ?_⟩⟩
      cases h
    | some err =>
      by_cases hretry : (q.tries.length + 1 : Int) < p.maxAttempts ∧ p.retries err = true
      · simp only [if_pos hretry]
        refine obeys_silent (uses_observe ⟨trivial, fun _ => trivial⟩) fun _ => ⟨trivial, fun ended => ?_⟩
        cases ended with
        | none =>
          have hrest := obeys_attempts startedAt n (some err) ((q.next .operation (some err)).next (.wait (p.delay q.tries.length)) none)
            (by simp only [Progress.next, List.length_append, List.length_singleton]; omega)
            (fun r hr => (List.mem_append.mp hr).elim (hfailed r) fun hr => ⟨err, List.mem_singleton.mp hr, hretry.2⟩)
            fun _ => by simp [Progress.next]
          simpa only [Progress.next, List.length_append, List.length_singleton] using hrest
        | some ctxErr =>
          refine obeys_silent (silent_complete ..) fun _ => ⟨?_, hdrop ▸ hfailed, .inr ⟨err, hget, hretry.2, ?_, rfl, rfl⟩⟩
          · exact (by omega : (q.next .operation (some err)).tries.length ≤ p.maxAttempts.toNat)
          · exact (by omega : (q.next .operation (some err)).tries.length < p.maxAttempts.toNat)
      · simp only [if_neg hretry]
        refine obeys_silent (silent_complete ..) fun _ => ⟨by omega, hdrop ▸ hfailed, .inl ⟨hget, fun err' h => ?_⟩⟩
        cases h
        rcases not_and_or.mp hretry with hleft | herr
        · exact .inr (by omega)
        · exact .inl (by simpa using herr)

theorem obeys_doOperation (p : RetryPolicy) :
    p.doOperation.Obeys (Progress.Allowed p.withDefaults) Progress.next (Outcome p.withDefaults) {} := by
  have hpos := (withDefaults_pos p).2.2
  refine ⟨trivial, fun startedAt => obeys_attempts startedAt _ none {} ?_ ?_ fun h => ?_⟩
  · simp
  · exact fun r hr => absurd hr List.not_mem_nil
  · omega

theorem Outcome.result_eq_none {q : Progress} {result : Option GoErr} (h : Outcome p q result) :
    result = none ↔ q.tries.getLast? = some none := by
  rcases h.last with ⟨hlast, -⟩ | ⟨err, hlast, -, -, hended, hresult⟩
  · rw [hlast, Option.some.injEq]
  · rw [hlast, hresult]
    simp [Option.isSome_iff_ne_none.mp hended]

def Progress.answer (e : Env) (q : Progress) (c : Cmd) : Ans c × Progress :=
  let r := (Retry.answer e [] c).1
  (r, q.next c r)

/-- What a call of `Do` returns, and what it has met. -/
def RetryPolicy.outcome (p : RetryPolicy) (es : Nat → Env) : Option GoErr × Progress :=
  p.doOperation.alone Progress.answer es {}

/-- Whatever the operation, the clock and the context do, `Do` tries at most
`MaxAttempts` times, and again only after an error that is to be retried. It
returns nil exactly if its last attempt succeeded. -/
theorem do_outcome (p : RetryPolicy) (es : Nat → Env) :
    Outcome p.withDefaults (p.outcome es).2 (p.outcome es).1 ∧
      ((p.outcome es).1 = none ↔ (p.outcome es).2.tries.getLast? = some none) := by
  have houtcome : Outcome p.withDefaults (id (p.outcome es).2) (p.outcome es).1 :=
    Obeys.alone (fun _ _ _ => rfl) _ _ _ (obeys_doOperation p)
  exact ⟨houtcome, houtcome.result_eq_none⟩

end GameServer.Reliability.Retry
