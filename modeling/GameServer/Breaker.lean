import GameServer.Go
import GameServer.Prog

/-!
# The circuit breaker

`allow` and `complete` hold the breaker's lock and are one command each; the
operation in between, and the observer, run outside it. Every command takes
some time first, so each reads a clock that never goes back. The world also
keeps the history of both commands, which the code does not: it is what the
results at the end are about.
-/

namespace GameServer.Reliability

inductive CircuitState
  | stateClosed
  | stateOpen
  | stateHalfOpen
  deriving DecidableEq

structure CircuitBreaker where
  failures : Nat
  threshold : Nat
  openUntil : Time
  resetTimeout : Nat
  state : CircuitState
  observer : Bool

def second : Int := 1000000000

def errCircuitOpen : GoErr := .new "circuit breaker is open"

def newCircuitBreaker (failureThreshold resetTimeout : Int) (observer : Bool) : CircuitBreaker :=
  let failureThreshold := if failureThreshold < 1 then 1 else failureThreshold
  let resetTimeout := if resetTimeout ≤ 0 then second else resetTimeout
  ⟨0, failureThreshold.toNat, 0, resetTimeout.toNat, .stateClosed, observer⟩

namespace CircuitBreaker

/-- What `allow` does under the lock: whether the call is admitted, and the
change of state that is announced after it. -/
def allow (b : CircuitBreaker) (now : Time) : Bool × CircuitBreaker × Option (CircuitState × CircuitState) :=
  match b.state with
  | .stateClosed => (true, b, none)
  | .stateOpen =>
    if now < b.openUntil then (false, b, none)
    else (true, { b with state := .stateHalfOpen }, some (b.state, .stateHalfOpen))
  | .stateHalfOpen => (false, b, none)

def complete (b : CircuitBreaker) (now : Time) :
    Option GoErr → CircuitBreaker × Option (CircuitState × CircuitState)
  | none =>
    let b' := { b with failures := 0, openUntil := 0 }
    if b.state ≠ .stateClosed then ({ b' with state := .stateClosed }, some (b.state, .stateClosed)) else (b', none)
  | some _ =>
    let b' := { b with failures := b.failures + 1 }
    if b'.threshold ≤ b'.failures then
      let b' := { b' with openUntil := now + b.resetTimeout }
      if b.state ≠ .stateOpen then ({ b' with state := .stateOpen }, some (b.state, .stateOpen)) else (b', none)
    else (b', none)

end CircuitBreaker

/-! ## Calls -/

inductive Cmd
  | allow
  | operation
  | complete (err : Option GoErr)
  | onStateChange (old new : CircuitState)
  | onCall (result : String)
  | state
  | setObserver (observer : Bool)

abbrev Ans : Cmd → Type
  | .allow => Bool × Option (CircuitState × CircuitState)
  | .operation => Option GoErr
  | .complete _ => Option (CircuitState × CircuitState)
  | .onStateChange _ _ => Unit
  | .onCall _ => Unit
  | .state => CircuitState
  | .setObserver _ => CircuitState

open Prog

def notifyStateChange : Option (CircuitState × CircuitState) → Prog Ans Unit
  | some (old, new) => perform (Cmd.onStateChange old new)
  | none => pure ()

def allow : Prog Ans Bool := do
  let (allowed, change) ← perform Cmd.allow
  notifyStateChange change
  return allowed

def complete (err : Option GoErr) : Prog Ans Unit := do
  let change ← perform (Cmd.complete err)
  notifyStateChange change

/-- `executeClassified` once `allow` has answered. -/
def afterAllow (countsFailure : Option (Option GoErr → Bool)) (allowed : Bool) : Prog Ans (Option GoErr) := do
  if !allowed then
    perform (Cmd.onCall "circuit_open")
    return some errCircuitOpen
  let err ← perform Cmd.operation
  let counts := countsFailure.elim true (· err)
  if counts then complete err else complete none
  perform (Cmd.onCall (if err.isNone then "success" else if counts then "failure" else "ignored_failure"))
  return err

def executeClassified (countsFailure : Option (Option GoErr → Bool)) : Prog Ans (Option GoErr) :=
  allow >>= afterAllow countsFailure

def execute : Prog Ans (Option GoErr) := executeClassified (some fun _ => true)

def setObserver (observer : Bool) : Prog Ans Unit := do
  let state ← perform (Cmd.setObserver observer)
  if observer then perform (Cmd.onStateChange state state)

inductive Call
  | execute
  | executeClassified (countsFailure : Option (Option GoErr → Bool))
  | state
  | setObserver (observer : Bool)

inductive Result
  | err (err : Option GoErr)
  | state (state : CircuitState)
  | done

def Call.handler : Call → Prog Ans Result
  | .execute => return .err (← Reliability.execute)
  | .executeClassified countsFailure => return .err (← Reliability.executeClassified countsFailure)
  | .state => return .state (← perform Cmd.state)
  | .setObserver observer => do
    Reliability.setObserver observer
    return .done

/-! ## The world -/

inductive Act
  | admitted
  | refused
  | completed
  deriving DecidableEq

/-- An `allow` or `complete` of a call: when it read the clock, and the states
before and after it. -/
structure Event where
  call : Nat
  time : Time
  act : Act
  old : CircuitState
  new : CircuitState
  deriving DecidableEq

namespace Event

def Opens (e : Event) : Prop := e.act = .completed ∧ e.old ≠ .stateOpen ∧ e.new = .stateOpen

def IsProbe (e : Event) : Prop := e.act = .admitted ∧ e.new = .stateHalfOpen

def Settles (e p : Event) : Prop := e.act = .completed ∧ e.call = p.call

instance (e : Event) : Decidable e.Opens := inferInstanceAs (Decidable (_ ∧ _))
instance (e : Event) : Decidable e.IsProbe := inferInstanceAs (Decidable (_ ∧ _))
instance (e p : Event) : Decidable (e.Settles p) := inferInstanceAs (Decidable (_ ∧ _))

end Event

inductive Observation
  | stateChange (old new : CircuitState)
  | call (result : String)

structure World where
  breaker : CircuitBreaker
  now : Time
  observed : List Observation
  history : List Event
  /-- How many operations were run. -/
  ran : Nat

structure Env where
  elapsed : Nat := 0
  result : Option GoErr := none
  deriving Inhabited

namespace World

def observe (w : World) (o : Observation) : World :=
  if w.breaker.observer then { w with observed := w.observed ++ [o] } else w

def allow (w : World) (i : Nat) : Ans .allow × World :=
  let (allowed, b, change) := w.breaker.allow w.now
  let act := if allowed then .admitted else .refused
  ((allowed, change), { w with breaker := b, history := ⟨i, w.now, act, w.breaker.state, b.state⟩ :: w.history })

def complete (w : World) (i : Nat) (err : Option GoErr) : Ans (.complete err) × World :=
  let (b, change) := w.breaker.complete w.now err
  (change, { w with breaker := b, history := ⟨i, w.now, .completed, w.breaker.state, b.state⟩ :: w.history })

end World

def exec (i : Nat) (e : Env) (w : World) (c : Cmd) : Option (Ans c × World) :=
  let w := { w with now := w.now + e.elapsed }
  match c with
  | .allow => some (w.allow i)
  | .operation => some (e.result, { w with ran := w.ran + 1 })
  | .complete err => some (w.complete i err)
  | .onStateChange old new => some ((), w.observe (.stateChange old new))
  | .onCall result => some ((), w.observe (.call result))
  | .state => some (w.breaker.state, w)
  | .setObserver observer => some (w.breaker.state, { w with breaker := { w.breaker with observer } })

abbrev State := Pool Ans World Result

def State.init (b : CircuitBreaker) (now : Time) (calls : List Call) : State :=
  Pool.start ⟨b, now, [], [], 0⟩ (calls.map Call.handler)

/-! ## What is required -/

def StaysOpen (resetTimeout : Nat) (history : List Event) : Prop :=
  history.Pairwise fun e o => o.Opens → e.act = .admitted → o.time + resetTimeout ≤ e.time

instance (resetTimeout : Nat) (history : List Event) : Decidable (StaysOpen resetTimeout history) :=
  inferInstanceAs (Decidable (List.Pairwise _ _))

def ProbesAlone (history : List Event) : Prop :=
  ∀ later e mid p earlier, history = later ++ e :: (mid ++ p :: earlier) → p.IsProbe → e.act = .admitted →
    ∃ c ∈ mid, c.Settles p

def probe (history : List Event) : Option Nat := (history.find? fun e => e.IsProbe).map Event.call

/-- While the breaker is open only failures are completed, and while it is
half-open only the probe is. -/
def Timely (i : Nat) (_ : Env) (w : World) : Cmd → Prop
  | .complete err =>
    match w.breaker.state with
    | .stateClosed => True
    | .stateOpen => err ≠ none
    | .stateHalfOpen => probe w.history = some i
  | _ => True

instance (i : Nat) (e : Env) (w : World) : ∀ c, Decidable (Timely i e w c)
  | .complete err => by
    unfold Timely
    exact match w.breaker.state with
    | .stateClosed => .isTrue trivial
    | .stateOpen => inferInstanceAs (Decidable (err ≠ none))
    | .stateHalfOpen => inferInstanceAs (Decidable (probe w.history = some i))
  | .allow | .operation | .onStateChange _ _ | .onCall _ | .state | .setObserver _ => .isTrue trivial

/-! ## One command -/

theorem probesAlone_cons {e : Event} {history : List Event} : ProbesAlone (e :: history) ↔
    ProbesAlone history ∧ (e.act = .admitted → ∀ mid p earlier, history = mid ++ p :: earlier → p.IsProbe →
      ∃ c ∈ mid, c.Settles p) := by
  constructor
  · intro h
    exact ⟨fun later e' mid p earlier heq => h (e :: later) e' mid p earlier (congrArg (e :: ·) heq),
      fun he mid p earlier heq hp => h [] e mid p earlier (congrArg (e :: ·) heq) hp he⟩
  · rintro ⟨hrest, hhead⟩ later e' mid p earlier heq hp he
    cases later with
    | nil =>
      obtain ⟨rfl, rfl⟩ := List.cons.inj heq
      exact hhead he mid p earlier rfl hp
    | cons _ later =>
      exact hrest later e' mid p earlier (List.cons.inj heq).2 hp he

structure Inv (w : World) : Prop where
  past : ∀ e ∈ w.history, e.time ≤ w.now
  staysOpen : StaysOpen w.breaker.resetTimeout w.history
  alone : ProbesAlone w.history
  wait : ∀ o ∈ w.history, o.Opens →
    o.time + w.breaker.resetTimeout ≤ if w.breaker.state = .stateOpen then w.breaker.openUntil else w.now
  settled : ∀ mid p earlier, w.history = mid ++ p :: earlier → p.IsProbe →
    (∃ c ∈ mid, c.Settles p) ∨ w.breaker.state = .stateHalfOpen ∧ probe w.history = some p.call

theorem Inv.later {w : World} (h : Inv w) (elapsed : Nat) : Inv { w with now := w.now + elapsed } where
  past e he := Nat.le_trans (h.past e he) (Nat.le_add_right ..)
  staysOpen := h.staysOpen
  alone := h.alone
  wait o ho hopens := by
    have := h.wait o ho hopens
    dsimp only
    split at this
    · rwa [if_pos ‹_›]
    · rw [if_neg ‹_›]
      exact Nat.le_trans this (Nat.le_add_right ..)
  settled := h.settled

theorem probe_cons_of_not {x : Event} {history : List Event} (hx : ¬ x.IsProbe) : probe (x :: history) = probe history := by
  rw [probe, List.find?_cons_of_neg (by simpa using hx), probe]

theorem probe_cons_of_pos {x : Event} {history : List Event} (hx : x.IsProbe) : probe (x :: history) = some x.call := by
  rw [probe, List.find?_cons_of_pos (by simpa using hx)]
  rfl

theorem Inv.push {w : World} (h : Inv w) {x : Event} {b : CircuitBreaker} (htime : x.time = w.now)
    (hreset : b.resetTimeout = w.breaker.resetTimeout)
    (hadmits : x.act = .admitted →
      w.breaker.state ≠ .stateHalfOpen ∧ (w.breaker.state = .stateOpen → w.breaker.openUntil ≤ w.now))
    (hwait : ∀ o ∈ x :: w.history, o.Opens →
      o.time + w.breaker.resetTimeout ≤ if b.state = .stateOpen then b.openUntil else w.now)
    (hprobe : x.IsProbe → b.state = .stateHalfOpen)
    (hleave : w.breaker.state = .stateHalfOpen →
      b.state = .stateHalfOpen ∧ ¬ x.IsProbe ∨ x.act = .completed ∧ probe w.history = some x.call) :
    Inv { w with breaker := b, history := x :: w.history } where
  past := List.forall_mem_cons.mpr ⟨Nat.le_of_eq htime, h.past⟩
  staysOpen := by
    refine .cons (fun o ho hopens hx => ?_) (hreset ▸ h.staysOpen)
    have hdone := h.wait o ho hopens
    rw [htime]
    show o.time + b.resetTimeout ≤ w.now
    rw [hreset]
    split at hdone
    · exact Nat.le_trans hdone ((hadmits hx).2 ‹_›)
    · exact hdone
  alone := by
    refine probesAlone_cons.mpr ⟨h.alone, fun hx mid p earlier heq hp => ?_⟩
    rcases h.settled mid p earlier heq hp with hc | ⟨hhalf, -⟩
    · exact hc
    · exact absurd hhalf (hadmits hx).1
  wait := hreset ▸ hwait
  settled mid p earlier heq hp := by
    cases mid with
    | nil =>
      obtain ⟨rfl, rfl⟩ := List.cons.inj heq
      exact .inr ⟨hprobe hp, probe_cons_of_pos hp⟩
    | cons y mid =>
      obtain ⟨rfl, htail⟩ := List.cons.inj heq
      rcases h.settled mid p earlier htail hp with ⟨c, hc, hsettles⟩ | ⟨hhalf, hlast⟩
      · exact .inl ⟨c, .tail _ hc, hsettles⟩
      · rcases hleave hhalf with ⟨hhalf', hx⟩ | ⟨hdone, hcall⟩
        · exact .inr ⟨hhalf', (probe_cons_of_not hx).trans hlast⟩
        · exact .inl ⟨x, .head _, hdone, Option.some.inj (hcall.symm.trans hlast)⟩

theorem inv_allow {w : World} (h : Inv w) (i : Nat) : Inv (w.allow i).2 := by
  unfold World.allow CircuitBreaker.allow
  cases hstate : w.breaker.state with
  | stateClosed =>
    exact h.push rfl rfl (by simp [hstate]) (List.forall_mem_cons.mpr ⟨by simp [Event.Opens], h.wait⟩)
      (by simp [Event.IsProbe, hstate]) (by simp [hstate])
  | stateHalfOpen =>
    exact h.push rfl rfl (by simp) (List.forall_mem_cons.mpr ⟨by simp [Event.Opens], h.wait⟩)
      (by simp [Event.IsProbe]) (by simp [Event.IsProbe, hstate])
  | stateOpen =>
    by_cases hearly : w.now < w.breaker.openUntil
    · simp only [if_pos hearly]
      exact h.push rfl rfl (by simp) (List.forall_mem_cons.mpr ⟨by simp [Event.Opens], h.wait⟩)
        (by simp [Event.IsProbe]) (by simp [hstate])
    · simp only [if_neg hearly]
      have hwait : ∀ o ∈ w.history, o.Opens → o.time + w.breaker.resetTimeout ≤ w.now := by
        intro o ho hopens
        have hopen := h.wait o ho hopens
        rw [if_pos hstate] at hopen
        exact Nat.le_trans hopen (Nat.le_of_not_lt hearly)
      exact h.push rfl rfl (by simpa [hstate] using hearly)
        (List.forall_mem_cons.mpr ⟨by simp [Event.Opens], by simpa using hwait⟩) (fun _ => rfl) (by simp [hstate])

namespace CircuitBreaker

variable (b : CircuitBreaker) (now : Time)

theorem allow_resetTimeout : (b.allow now).2.1.resetTimeout = b.resetTimeout := by
  unfold allow
  split
  · rfl
  · split <;> rfl
  · rfl

theorem complete_resetTimeout (err : Option GoErr) : (b.complete now err).1.resetTimeout = b.resetTimeout := by
  unfold complete
  split <;> dsimp only <;> repeat' split
  all_goals rfl

theorem complete_none : (b.complete now none).1.state = .stateClosed := by
  unfold complete
  dsimp only
  split
  · rfl
  · rename_i h
    exact not_not.mp h

theorem complete_some (err : GoErr) :
    (b.complete now (some err)).1.state = .stateOpen ∧ (b.complete now (some err)).1.openUntil = now + b.resetTimeout ∨
    (b.complete now (some err)).1.state = b.state ∧ (b.complete now (some err)).1.openUntil = b.openUntil := by
  unfold complete
  dsimp only
  split
  · split
    · exact .inl ⟨rfl, rfl⟩
    · rename_i h
      exact .inl ⟨not_not.mp h, rfl⟩
  · exact .inr ⟨rfl, rfl⟩

end CircuitBreaker

theorem inv_complete {w : World} (h : Inv w) {i : Nat} {e : Env} {err : Option GoErr} (ht : Timely i e w (.complete err)) :
    Inv (w.complete i err).2 := by
  -- Whatever was opened before was opened no later than now.
  have hpast : ∀ o ∈ w.history, o.time + w.breaker.resetTimeout ≤ w.now + w.breaker.resetTimeout :=
    fun o ho => Nat.add_le_add_right (h.past o ho) _
  have hleave : w.breaker.state = .stateHalfOpen → probe w.history = some i := by
    intro hhalf
    simpa [Timely, hhalf] using ht
  refine h.push (x := ⟨i, w.now, .completed, w.breaker.state, (w.breaker.complete w.now err).1.state⟩)
    (b := (w.breaker.complete w.now err).1) rfl (CircuitBreaker.complete_resetTimeout ..) (by simp) ?_ (by simp [Event.IsProbe])
    (fun hhalf => .inr ⟨rfl, hleave hhalf⟩)
  cases err with
  | none =>
    have hopen : w.breaker.state ≠ .stateOpen := by
      intro hopen
      simp [Timely, hopen] at ht
    rw [CircuitBreaker.complete_none]
    refine List.forall_mem_cons.mpr ⟨by simp [Event.Opens], fun o ho hopens => ?_⟩
    have := h.wait o ho hopens
    rwa [if_neg hopen] at this
  | some err =>
    rcases CircuitBreaker.complete_some w.breaker w.now err with ⟨hstate, huntil⟩ | ⟨hstate, huntil⟩
    · rw [hstate, huntil]
      simp only [if_true]
      exact List.forall_mem_cons.mpr ⟨fun _ => Nat.le_refl _, fun o ho _ => hpast o ho⟩
    · rw [hstate, huntil]
      refine List.forall_mem_cons.mpr ⟨?_, h.wait⟩
      rintro ⟨-, hne, heq⟩
      exact absurd heq hne

theorem inv_exec {i : Nat} {e : Env} {w w' : World} {c : Cmd} {r : Ans c} (h : Inv w) (ht : Timely i e w c)
    (hx : exec i e w c = some (r, w')) : Inv w' := by
  have hlater := h.later e.elapsed
  have hobserve : ∀ o, Inv (World.observe { w with now := w.now + e.elapsed } o) := by
    intro o
    unfold World.observe
    split
    · exact ⟨hlater.past, hlater.staysOpen, hlater.alone, hlater.wait, hlater.settled⟩
    · exact hlater
  cases c with
  | allow =>
    cases hx
    exact inv_allow hlater i
  | complete err =>
    cases hx
    exact inv_complete hlater (e := e) ht
  | operation =>
    cases hx
    exact ⟨hlater.past, hlater.staysOpen, hlater.alone, hlater.wait, hlater.settled⟩
  | state =>
    cases hx
    exact hlater
  | onStateChange old new =>
    cases hx
    exact hobserve _
  | onCall result =>
    cases hx
    exact hobserve _
  | setObserver observer =>
    cases hx
    exact ⟨hlater.past, hlater.staysOpen, hlater.alone, hlater.wait, hlater.settled⟩

theorem exec_resetTimeout {i : Nat} {e : Env} {w w' : World} {c : Cmd} {r : Ans c}
    (hx : exec i e w c = some (r, w')) : w'.breaker.resetTimeout = w.breaker.resetTimeout := by
  cases c with
  | allow =>
    cases hx
    exact CircuitBreaker.allow_resetTimeout ..
  | complete err =>
    cases hx
    exact CircuitBreaker.complete_resetTimeout ..
  | onStateChange old new =>
    cases hx
    unfold World.observe
    split <;> rfl
  | onCall result =>
    cases hx
    unfold World.observe
    split <;> rfl
  | operation => cases hx; rfl
  | state => cases hx; rfl
  | setObserver observer => cases hx; rfl

/-! ## Runs -/

/-- While the breaker is open only failures are completed, and while it is
half-open only the probe: then it stays open for `resetTimeout` each time, and
every probe is alone. -/
theorem breaker_run (failureThreshold resetTimeout : Int) (observer : Bool) (now : Time) (calls : List Call)
    (schedule : List (Nat × Env))
    (htimely : Pool.Along exec (Pool.Issues Timely)
      (State.init (newCircuitBreaker failureThreshold resetTimeout observer) now calls) schedule) :
    StaysOpen (newCircuitBreaker failureThreshold resetTimeout observer).resetTimeout
      (Pool.run exec (State.init (newCircuitBreaker failureThreshold resetTimeout observer) now calls)
        schedule).world.history ∧
    ProbesAlone (Pool.run exec (State.init (newCircuitBreaker failureThreshold resetTimeout observer) now calls)
      schedule).world.history := by
  generalize hb : newCircuitBreaker failureThreshold resetTimeout observer = b at htimely
  have hstart : Inv (State.init b now calls).world := by
    constructor <;> simp [State.init, Pool.start, StaysOpen, ProbesAlone]
  have hstep : ∀ i e w c r w', (Inv w ∧ w.breaker.resetTimeout = b.resetTimeout) → Timely i e w c →
      exec i e w c = some (r, w') → Inv w' ∧ w'.breaker.resetTimeout = b.resetTimeout :=
    fun i e w c r w' h ht hx => ⟨inv_exec h.1 ht hx, (exec_resetTimeout hx).trans h.2⟩
  obtain ⟨hinv, hreset⟩ := Pool.inv_run hstep (s := State.init b now calls) ⟨hstart, rfl⟩ htimely
  rw [← hreset]
  exact ⟨hinv.staysOpen, hinv.alone⟩

theorem breaker_run_recovers :
    let s := State.init (newCircuitBreaker 1 10 true) 100 [.execute, .execute, .execute]
    let refused : Env := { result := some (.driver "connection refused") }
    let schedule := [(0, {}), (0, refused), (0, {}), (0, {}), (0, {}), (1, { elapsed := 5 }), (2, { elapsed := 5 }), (2, {}),
      (2, {}), (2, {})]
    (Pool.run exec s schedule).world.breaker.state = .stateClosed ∧
      StaysOpen 10 (Pool.run exec s schedule).world.history ∧ ProbesAlone (Pool.run exec s schedule).world.history := by
  refine ⟨by decide, ?_⟩
  exact breaker_run 1 10 true 100 _ _ (by decide)

/-- A call admitted before the breaker opened succeeds after it, and the next
call is admitted at once. Or it fails while the probe is on its way, and there
is a second probe. -/
theorem breaker_stale :
    let refused : Env := { result := some (.driver "connection refused") }
    (let s := State.init (newCircuitBreaker 1 10 false) 100 [.execute, .execute, .execute]
     let schedule := [(0, {}), (1, {}), (1, refused), (1, {}), (0, {}), (0, {}), (2, {})]
     ¬ StaysOpen 10 (Pool.run exec s schedule).world.history) ∧
    (let s := State.init (newCircuitBreaker 1 10 false) 100 [.execute, .execute, .execute, .execute]
     let schedule := [(0, {}), (1, {}), (1, refused), (1, {}), (2, { elapsed := 10 }), (2, {}), (0, refused), (0, {}),
       (3, { elapsed := 10 })]
     ¬ ProbesAlone (Pool.run exec s schedule).world.history) := by
  refine ⟨show ¬ StaysOpen _ _ by decide, ?_⟩
  intro s schedule h
  have hhistory : (Pool.run exec s schedule).world.history =
      ⟨3, 120, .admitted, .stateOpen, .stateHalfOpen⟩ :: ([⟨0, 110, .completed, .stateHalfOpen, .stateOpen⟩] ++
        ⟨2, 110, .admitted, .stateOpen, .stateHalfOpen⟩ :: [⟨1, 100, .completed, .stateClosed, .stateOpen⟩,
          ⟨1, 100, .admitted, .stateClosed, .stateClosed⟩, ⟨0, 100, .admitted, .stateClosed, .stateClosed⟩]) := by
    decide
  obtain ⟨c, hc, -, hcall⟩ := h [] _ _ _ _ hhistory (by decide) rfl
  rw [List.mem_singleton.mp hc] at hcall
  exact absurd hcall (by decide)

end GameServer.Reliability
