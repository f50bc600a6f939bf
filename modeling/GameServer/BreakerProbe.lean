import GameServer.Breaker

/-!
# The breaker's probe

A half-open breaker refuses every call, so it must not stay half-open for ever.
It does not: any completion leaves the half-open state, since the failures are
still counted from before the breaker opened, and the probe has its completion
still to come.

Called one after the other, the breaker is an automaton with two kinds of
states: closed with a count, and open until some time.
-/

namespace GameServer.Reliability

open Prog

/-! ## The probe is on its way -/

def Cmd.Completes : Cmd → Prop
  | .complete _ => True
  | _ => False

def Admits : (c : Cmd) → Ans c → Prop
  | .allow, r => r.1 = true
  | _, _ => False

theorem executeClassified_eq (countsFailure : Option (Option GoErr → Bool)) :
    executeClassified countsFailure =
      .call .allow fun r => notifyStateChange r.2 >>= fun _ => afterAllow countsFailure r.1 := by
  refine congrArg (Prog.call Cmd.allow) (funext fun r => ?_)
  obtain ⟨allowed, change⟩ := r
  cases change <;> rfl

def counted (countsFailure : Option (Option GoErr → Bool)) (err : Option GoErr) : Option GoErr :=
  if countsFailure.elim true (· err) then err else none

def label (countsFailure : Option (Option GoErr → Bool)) (err : Option GoErr) : String :=
  if err.isNone then "success" else if countsFailure.elim true (· err) then "failure" else "ignored_failure"

theorem afterAllow_true (countsFailure : Option (Option GoErr → Bool)) :
    afterAllow countsFailure true = .call .operation fun err => complete (counted countsFailure err) >>= fun _ =>
      .call (.onCall (label countsFailure err)) fun _ => .ret err := by
  refine congrArg (Prog.call Cmd.operation) (funext fun err => ?_)
  unfold counted label
  simp only [Prog.bind]
  cases countsFailure.elim true (· err) <;> rfl

theorem owes_notified {α : Type} {f : Unit → Prog Ans α} (hf : ∀ u, (f u).Owes Cmd.Completes)
    (change : Option (CircuitState × CircuitState)) : (notifyStateChange change >>= f).Owes Cmd.Completes := by
  cases change with
  | none => exact hf ()
  | some x => exact .inr hf

theorem owes_afterAllow (countsFailure : Option (Option GoErr → Bool)) :
    (afterAllow countsFailure true).Owes Cmd.Completes := by
  rw [afterAllow_true]
  refine .inr fun err => Owes.bind _ ?_
  exact .inl trivial

def Cmd.Follows : Cmd → Prop
  | .allow => False
  | _ => True

theorem not_admits {c : Cmd} (hc : c.Follows) (r : Ans c) : ¬ Admits c r := by
  cases c with
  | allow => exact hc.elim
  | _ => exact id

theorem uses_notifyStateChange (change : Option (CircuitState × CircuitState)) :
    (notifyStateChange change).Uses Cmd.Follows := by
  cases change with
  | none => trivial
  | some x => exact ⟨trivial, fun _ => trivial⟩

theorem uses_afterAllow (countsFailure : Option (Option GoErr → Bool)) (allowed : Bool) :
    (afterAllow countsFailure allowed).Uses Cmd.Follows := by
  cases allowed with
  | false => exact ⟨trivial, fun _ => trivial⟩
  | true =>
    rw [afterAllow_true]
    refine ⟨trivial, fun err => Uses.bind ?_ fun _ => ⟨trivial, fun _ => trivial⟩⟩
    exact ⟨trivial, uses_notifyStateChange⟩

theorem after_of_follows {α : Type} {Q : Prog Ans α → Prop} {p : Prog Ans α} (hp : p.Uses Cmd.Follows) :
    p.After Admits Q := .of_uses (hp.mono fun _ => not_admits)

theorem after_executeClassified (countsFailure : Option (Option GoErr → Bool)) :
    (executeClassified countsFailure).After Admits (·.Owes Cmd.Completes) := by
  rw [executeClassified_eq]
  intro r
  obtain ⟨allowed, change⟩ := r
  refine ⟨fun h => ?_, after_of_follows (Uses.bind (uses_notifyStateChange change) fun _ => uses_afterAllow ..)⟩
  obtain rfl : allowed = true := h
  exact owes_notified (fun _ => owes_afterAllow countsFailure) change

theorem after_handler (call : Call) : call.handler.After Admits (·.Owes Cmd.Completes) := by
  cases call with
  | execute =>
    exact After.bind (f := fun err => ret (Result.err err)) (fun _ => Owes.bind _) (fun _ => trivial) (after_executeClassified _)
  | executeClassified countsFailure =>
    exact After.bind (f := fun err => ret (Result.err err)) (fun _ => Owes.bind _) (fun _ => trivial)
      (after_executeClassified countsFailure)
  | state => exact after_of_follows ⟨trivial, fun _ => trivial⟩
  | setObserver observer =>
    refine after_of_follows ⟨trivial, fun state => ?_⟩
    cases observer with
    | true => exact ⟨trivial, fun _ => trivial⟩
    | false => trivial

/-! ## One command -/

def CircuitBreaker.Counted (b : CircuitBreaker) : Prop := b.state ≠ .stateClosed → b.threshold ≤ b.failures

theorem CircuitBreaker.Counted.complete {b : CircuitBreaker} (h : b.Counted) (now : Time) (err : Option GoErr) :
    (b.complete now err).1.Counted ∧ (b.complete now err).1.state ≠ .stateHalfOpen := by
  cases err with
  | none => simp [Counted, complete_none]
  | some err =>
    unfold CircuitBreaker.complete Counted
    dsimp only
    by_cases hcount : b.threshold ≤ b.failures + 1
    · rw [if_pos hcount]
      by_cases hopen : b.state = .stateOpen
      · simp [hopen, hcount]
      · simp [hopen, hcount]
    · -- too few failures, so the breaker is closed
      rw [if_neg hcount]
      have hclosed : b.state = .stateClosed := by
        by_contra hne
        exact hcount (Nat.le_succ_of_le (h hne))
      simp [hclosed]

theorem CircuitBreaker.allow_cases (b : CircuitBreaker) (now : Time) :
    b.state = .stateClosed ∧ b.allow now = (true, b, none) ∨
    b.state = .stateOpen ∧ now < b.openUntil ∧ b.allow now = (false, b, none) ∨
    b.state = .stateOpen ∧ b.openUntil ≤ now ∧
      b.allow now = (true, { b with state := .stateHalfOpen }, some (.stateOpen, .stateHalfOpen)) ∨
    b.state = .stateHalfOpen ∧ b.allow now = (false, b, none) := by
  unfold CircuitBreaker.allow
  cases b.state with
  | stateClosed => simp
  | stateHalfOpen => simp
  | stateOpen =>
    by_cases h : now < b.openUntil
    · simp [h]
    · simp [h, Nat.le_of_not_lt h]

theorem CircuitBreaker.allow_threshold (b : CircuitBreaker) (now : Time) : (b.allow now).2.1.threshold = b.threshold := by
  rcases b.allow_cases now with ⟨-, heq⟩ | ⟨-, -, heq⟩ | ⟨-, -, heq⟩ | ⟨-, heq⟩
  all_goals rw [heq]

theorem CircuitBreaker.complete_threshold (b : CircuitBreaker) (now : Time) (err : Option GoErr) :
    (b.complete now err).1.threshold = b.threshold := by
  unfold CircuitBreaker.complete
  split <;> dsimp only <;> repeat' split
  all_goals rfl

theorem exec_allow {i : Nat} {e : Env} {w w' : World} {r : Ans .allow} (hx : exec i e w .allow = some (r, w')) :
    let b := w.breaker.allow (w.now + e.elapsed)
    r = (b.1, b.2.2) ∧ w'.breaker = b.2.1 ∧ w'.history =
      ⟨i, w.now + e.elapsed, if b.1 then .admitted else .refused, w.breaker.state, b.2.1.state⟩ :: w.history := by
  cases hx
  exact ⟨rfl, rfl, rfl⟩

theorem observe_breaker (w : World) (o : Observation) : (w.observe o).breaker = w.breaker := by
  unfold World.observe
  split <;> rfl

theorem observe_ran (w : World) (o : Observation) : (w.observe o).ran = w.ran := by
  unfold World.observe
  split <;> rfl

theorem observe_history (w : World) (o : Observation) : (w.observe o).history = w.history := by
  unfold World.observe
  split <;> rfl

theorem exec_counted {i : Nat} {e : Env} {w w' : World} {c : Cmd} {r : Ans c} (h : w.breaker.Counted)
    (hx : exec i e w c = some (r, w')) : w'.breaker.Counted := by
  cases c with
  | allow =>
    obtain ⟨-, hb, -⟩ := exec_allow hx
    rw [hb]
    rcases w.breaker.allow_cases (w.now + e.elapsed) with ⟨-, heq⟩ | ⟨-, -, heq⟩ | ⟨hopen, -, heq⟩ | ⟨-, heq⟩
    · rwa [heq]
    · rwa [heq]
    · rw [heq]
      exact fun _ => h (by simp [hopen])
    · rwa [heq]
  | complete err =>
    cases hx
    exact (h.complete _ err).1
  | onStateChange old new =>
    cases hx
    simpa only [observe_breaker] using h
  | onCall result =>
    cases hx
    simpa only [observe_breaker] using h
  | operation => cases hx; exact h
  | state => cases hx; exact h
  | setObserver observer => cases hx; exact h

theorem exec_halfOpen {i : Nat} {e : Env} {w w' : World} {c : Cmd} {r : Ans c} (h : w.breaker.Counted)
    (hx : exec i e w c = some (r, w')) (hhalf : w'.breaker.state = .stateHalfOpen) :
    ¬ c.Completes ∧ (Admits c r ∧ probe w'.history = some i ∨
      w.breaker.state = .stateHalfOpen ∧ probe w'.history = probe w.history) := by
  cases c with
  | allow =>
    refine ⟨id, ?_⟩
    obtain ⟨rfl, hb, hhistory⟩ := exec_allow hx
    rw [hb] at hhalf
    rw [hhistory]
    rcases w.breaker.allow_cases (w.now + e.elapsed) with ⟨hclosed, heq⟩ | ⟨hopen, -, heq⟩ | ⟨-, -, heq⟩ | ⟨hold, heq⟩
    · simp [heq, hclosed] at hhalf
    · simp [heq, hopen] at hhalf
    · simp only [heq]
      exact .inl ⟨rfl, probe_cons_of_pos ⟨rfl, rfl⟩⟩
    · simp only [heq]
      exact .inr ⟨hold, probe_cons_of_not (by simp [Event.IsProbe])⟩
  | complete err =>
    cases hx
    exact absurd hhalf (h.complete _ err).2
  | onStateChange old new =>
    cases hx
    rw [observe_breaker] at hhalf
    exact ⟨id, .inr ⟨hhalf, by rw [observe_history]⟩⟩
  | onCall result =>
    cases hx
    rw [observe_breaker] at hhalf
    exact ⟨id, .inr ⟨hhalf, by rw [observe_history]⟩⟩
  | operation => cases hx; exact ⟨id, .inr ⟨hhalf, rfl⟩⟩
  | state => cases hx; exact ⟨id, .inr ⟨hhalf, rfl⟩⟩
  | setObserver observer => cases hx; exact ⟨id, .inr ⟨hhalf, rfl⟩⟩

/-! ## Runs -/

def InFlight (s : State) (i : Nat) : Prop := ∃ p, s.procs[i]? = some p ∧ p.Owes Cmd.Completes

theorem inFlight_step {s : State} {a : Nat × Env} {i : Nat} (h : s.world.breaker.Counted)
    (hhalf : (Pool.step exec s a).world.breaker.state = .stateHalfOpen) (hi : InFlight s i) :
    InFlight (Pool.step exec s a) i := by
  rcases Pool.step_cases exec s a with heq | ⟨c, k, r, w, hp, hx, heq⟩
  · rwa [heq]
  rw [heq] at hhalf ⊢
  obtain ⟨p, hpi, howes⟩ := hi
  by_cases hai : a.1 = i
  · subst hai
    cases hp.symm.trans hpi
    have hlt : a.1 < s.procs.length := (List.getElem?_eq_some_iff.mp hp).1
    exact ⟨k r, List.getElem?_set_self hlt, howes.resolve_left (exec_halfOpen h hx hhalf).1 r⟩
  · exact ⟨p, (List.getElem?_set_ne hai).trans hpi, howes⟩

structure Live (s : State) : Prop where
  counted : s.world.breaker.Counted
  probing : s.world.breaker.state = .stateHalfOpen → ∃ i, probe s.world.history = some i ∧ InFlight s i
  handlers : ∀ (i : Nat) (p : Prog Ans Result), s.procs[i]? = some p → p.After Admits (·.Owes Cmd.Completes)

theorem live_step {s : State} (h : Live s) (a : Nat × Env) : Live (Pool.step exec s a) where
  counted := by
    rcases Pool.step_cases exec s a with heq | ⟨c, k, r, w, -, hx, heq⟩
    · rw [heq]
      exact h.counted
    · rw [heq]
      exact exec_counted h.counted hx
  probing hhalf := by
    rcases Pool.step_cases exec s a with heq | ⟨c, k, r, w, hp, hx, heq⟩
    · rw [heq] at hhalf ⊢
      exact h.probing hhalf
    have hhalf' : w.breaker.state = .stateHalfOpen := by rwa [heq] at hhalf
    rcases (exec_halfOpen h.counted hx hhalf').2 with ⟨hadmits, hprobe⟩ | ⟨hold, hprobe⟩
    · -- the call that moved is the probe
      have hlt : a.1 < s.procs.length := (List.getElem?_eq_some_iff.mp hp).1
      refine ⟨a.1, ?_, k r, ?_, (h.handlers a.1 _ hp r).1 hadmits⟩
      · rw [heq]
        exact hprobe
      · rw [heq]
        exact List.getElem?_set_self hlt
    · obtain ⟨i, hi, hflight⟩ := h.probing hold
      refine ⟨i, ?_, inFlight_step h.counted hhalf hflight⟩
      rw [heq]
      exact hprobe.trans hi
  handlers := Pool.procs_step (fun _ _ _ r h => (h r).2) h.handlers a

theorem live_run {s : State} (h : Live s) (schedule : List (Nat × Env)) : Live (Pool.run exec s schedule) :=
  Pool.run_induction exec (I := Live) (P := fun _ _ => True) (fun _ a h _ => live_step h a) schedule s h
    (Pool.along_of_forall exec (fun _ _ => trivial) schedule s)

theorem exists_not_halfOpen : ∀ (later : List (Nat × Env)) {s : State} {i : Nat} {r : Result}, Live s → InFlight s i →
    (Pool.run exec s later).answer i = some r → ∃ w ∈ Pool.visited exec s later, w.breaker.state ≠ .stateHalfOpen
  | [], s, i, r, _, hflight, hans => by
    obtain ⟨p, hp, howes⟩ := hflight
    cases hp.symm.trans (Pool.answer_eq_some hans)
    exact howes.elim
  | a :: later, s, i, r, h, hflight, hans => by
    by_cases hhalf : (Pool.step exec s a).world.breaker.state = .stateHalfOpen
    · obtain ⟨w, hw, hne⟩ := exists_not_halfOpen later (live_step h a) (inFlight_step h.counted hhalf hflight) hans
      exact ⟨w, List.mem_cons_of_mem _ hw, hne⟩
    · exact ⟨_, List.mem_cons_of_mem _ (Pool.world_mem_visited exec _ later), hhalf⟩

/-- In every state of every run: a breaker that is not closed has counted at
least `threshold` failures; and the last probe of a half-open breaker is still
in flight, its completion leaves the half-open state, and so the breaker cannot
be half-open all the way until the probe has returned. -/
theorem breaker_not_stuck (failureThreshold resetTimeout : Int) (observer : Bool) (now : Time) (calls : List Call)
    (schedule : List (Nat × Env)) :
    let s := Pool.run exec (State.init (newCircuitBreaker failureThreshold resetTimeout observer) now calls) schedule
    (s.world.breaker.state ≠ .stateClosed → s.world.breaker.threshold ≤ s.world.breaker.failures) ∧
    (s.world.breaker.state = .stateHalfOpen → ∃ i, probe s.world.history = some i ∧ InFlight s i ∧
      (∀ e err change w, exec i e s.world (.complete err) = some (change, w) → w.breaker.state ≠ .stateHalfOpen) ∧
      ∀ later r, (Pool.run exec s later).answer i = some r →
        ∃ w ∈ Pool.visited exec s later, w.breaker.state ≠ .stateHalfOpen) := by
  intro s
  have hstart : Live (State.init (newCircuitBreaker failureThreshold resetTimeout observer) now calls) := by
    refine ⟨fun h => absurd rfl h, fun h => ?_, fun i p hp => ?_⟩
    · cases h
    · obtain ⟨call, -, rfl⟩ := List.mem_map.mp (List.mem_of_getElem? hp)
      exact after_handler call
  have hlive : Live s := live_run hstart schedule
  refine ⟨hlive.counted, fun hhalf => ?_⟩
  obtain ⟨i, hprobe, hflight⟩ := hlive.probing hhalf
  refine ⟨i, hprobe, hflight, fun e err change w hx heq => ?_, fun later r hans => ?_⟩
  · exact (exec_halfOpen hlive.counted hx heq).1 trivial
  · exact exists_not_halfOpen later hlive hflight hans

/-! ## One call after the other -/

structure Offer where
  countsFailure : Option (Option GoErr → Bool)
  env : Cmd → Env

namespace Offer

def err (o : Offer) : Option GoErr := (o.env .operation).result

def fails (o : Offer) : Bool := (o.countsFailure.elim true fun counts => counts o.err) && o.err.isSome

end Offer

theorem exec_isSome (i : Nat) (e : Env) (w : World) (c : Cmd) : (exec i e w c).isSome := by
  cases c <;> rfl

def answer (i : Nat) (env : Cmd → Env) (w : World) (c : Cmd) : Ans c × World :=
  (exec i (env c) w c).get (exec_isSome i (env c) w c)

structure Visit where
  arrival : Time
  completion : Time
  /-- How often the operation was run. -/
  ran : Nat
  returned : Option GoErr

def World.visit (w : World) (i : Nat) (o : Offer) : Visit × World :=
  let (returned, w') := (executeClassified o.countsFailure).alone (answer i) (fun _ => o.env) w
  let last := w'.history.head?
  (⟨w.now + (o.env .allow).elapsed, last.elim 0 Event.time, w'.ran - w.ran, returned⟩, w')

def World.visits : World → Nat → List Offer → List Visit
  | _, _, [] => []
  | w, i, o :: os => (w.visit i o).1 :: (w.visit i o).2.visits (i + 1) os

/-! ### What it should be -/

inductive Automaton
  | closed (failures : Nat)
  | opened (openUntil : Time)

namespace Automaton

def runs : Automaton → Time → Bool
  | .closed _, _ => true
  | .opened openUntil, arrival => decide (openUntil ≤ arrival)

/-- The state after a call that was run: a success or a result that is not
counted closes it with an empty count; a failure opens it for `resetTimeout`,
unless it was closed and there are too few of them. -/
def next (threshold resetTimeout : Nat) : Automaton → (fails : Bool) → (completion : Time) → Automaton
  | _, false, _ => .closed 0
  | .closed failures, true, completion =>
    if failures + 1 < threshold then .closed (failures + 1) else .opened (completion + resetTimeout)
  | .opened _, true, completion => .opened (completion + resetTimeout)

def Behaves (threshold resetTimeout : Nat) : Automaton → List Offer → List Visit → Prop
  | _, [], [] => True
  | a, o :: os, v :: vs =>
    if a.runs v.arrival then
      v.ran = 1 ∧ v.returned = o.err ∧
        (a.next threshold resetTimeout o.fails v.completion).Behaves threshold resetTimeout os vs
    else v.ran = 0 ∧ v.returned = some errCircuitOpen ∧ a.Behaves threshold resetTimeout os vs
  | _, _, _ => False

end Automaton

/-! ### It is -/

section
variable (i : Nat) (env : Cmd → Env) (w : World)

theorem alone_notifyStateChange (change : Option (CircuitState × CircuitState)) :
    ((notifyStateChange change).alone (answer i) (fun _ => env) w).2.breaker = w.breaker ∧
      ((notifyStateChange change).alone (answer i) (fun _ => env) w).2.history = w.history ∧
      ((notifyStateChange change).alone (answer i) (fun _ => env) w).2.ran = w.ran := by
  cases change with
  | none => exact ⟨rfl, rfl, rfl⟩
  | some x => exact ⟨observe_breaker .., observe_history .., observe_ran ..⟩

theorem alone_complete (err : Option GoErr) :
    let x := (complete err).alone (answer i) (fun _ => env) w
    ∃ e : Event, x.2.breaker = (w.breaker.complete e.time err).1 ∧ x.2.history = e :: w.history ∧ x.2.ran = w.ran := by
  have h := alone_notifyStateChange i env (World.complete { w with now := w.now + (env (.complete err)).elapsed } i err).2
    (World.complete { w with now := w.now + (env (.complete err)).elapsed } i err).1
  exact ⟨⟨i, _, .completed, _, _⟩, h.1, h.2.1, h.2.2⟩

theorem alone_executeClassified (countsFailure : Option (Option GoErr → Bool)) :
    let b := w.breaker.allow (w.now + (env .allow).elapsed)
    ∃ w' : World, w'.breaker = b.2.1 ∧ w'.ran = w.ran ∧
      (executeClassified countsFailure).alone (answer i) (fun _ => env) w =
        (afterAllow countsFailure b.1).alone (answer i) (fun _ => env) w' := by
  intro b
  have h := alone_notifyStateChange i env (World.allow { w with now := w.now + (env .allow).elapsed } i).2 b.2.2
  refine ⟨_, h.1, h.2.2, ?_⟩
  rw [executeClassified_eq]
  exact alone_bind ..

theorem alone_afterAllow (countsFailure : Option (Option GoErr → Bool)) :
    let x := (afterAllow countsFailure true).alone (answer i) (fun _ => env) w
    ∃ e : Event, x.1 = (env .operation).result ∧ x.2.history = e :: w.history ∧ x.2.ran = w.ran + 1 ∧
      x.2.breaker = (w.breaker.complete e.time (counted countsFailure (env .operation).result)).1 := by
  intro x
  obtain ⟨e, hb, hhistory, hran⟩ := alone_complete i env { w with now := w.now + (env .operation).elapsed, ran := w.ran + 1 }
    (counted countsFailure (env .operation).result)
  have hx : x = (complete (counted countsFailure (env .operation).result) >>= fun _ =>
      .call (.onCall (label countsFailure (env .operation).result)) fun _ => .ret (env .operation).result).alone (answer i)
        (fun _ => env) { w with now := w.now + (env .operation).elapsed, ran := w.ran + 1 } :=
    congrArg (fun p => alone (answer i) p (fun _ => env) w) (afterAllow_true countsFailure)
  rw [hx, alone_bind]
  exact ⟨e, rfl, (observe_history ..).trans hhistory, (observe_ran ..).trans hran, (observe_breaker ..).trans hb⟩

theorem visit_of_refused {o : Offer} (h : (w.breaker.allow (w.now + (o.env .allow).elapsed)).1 = false) :
    (w.visit i o).1.ran = 0 ∧ (w.visit i o).1.returned = some errCircuitOpen ∧
      (w.visit i o).2.breaker = (w.breaker.allow (w.now + (o.env .allow).elapsed)).2.1 := by
  obtain ⟨w', hb, hran, heq⟩ := alone_executeClassified i o.env w o.countsFailure
  rw [h] at heq
  have hran : ((afterAllow o.countsFailure false).alone (answer i) (fun _ => o.env) w').2.ran = w.ran :=
    (observe_ran ..).trans hran
  simp only [World.visit, heq, hran]
  exact ⟨Nat.sub_self _, rfl, (observe_breaker ..).trans hb⟩

theorem visit_of_admitted {o : Offer} (h : (w.breaker.allow (w.now + (o.env .allow).elapsed)).1 = true) :
    (w.visit i o).1.ran = 1 ∧ (w.visit i o).1.returned = o.err ∧
      (w.visit i o).2.breaker = ((w.breaker.allow (w.now + (o.env .allow).elapsed)).2.1.complete
        (w.visit i o).1.completion (counted o.countsFailure o.err)).1 := by
  obtain ⟨w', hb, hran, heq⟩ := alone_executeClassified i o.env w o.countsFailure
  rw [h] at heq
  obtain ⟨e, hreturned, hhistory, hran', hcomplete⟩ := alone_afterAllow i o.env w' o.countsFailure
  simp only [World.visit, heq, hhistory, List.head?_cons, hran', hran]
  refine ⟨Nat.add_sub_cancel_left .., hreturned, ?_⟩
  rw [hcomplete, hb]
  rfl

end

def Automaton.Matches (b : CircuitBreaker) : Automaton → Prop
  | .closed failures => b.state = .stateClosed ∧ b.failures = failures
  | .opened openUntil => b.state = .stateOpen ∧ b.openUntil = openUntil ∧ b.threshold ≤ b.failures

theorem Automaton.runs_iff {b : CircuitBreaker} {a : Automaton} (h : a.Matches b) (t : Time) :
    (b.allow t).1 = a.runs t := by
  cases a with
  | closed failures => simp [runs, CircuitBreaker.allow, h.1]
  | opened openUntil =>
    obtain ⟨hstate, rfl, -⟩ := h
    by_cases hlt : t < b.openUntil
    · simp [runs, CircuitBreaker.allow, hstate, hlt]
    · simp [runs, CircuitBreaker.allow, hstate, hlt, Nat.le_of_not_lt hlt]

theorem CircuitBreaker.allow_of_refused {b : CircuitBreaker} {t : Time} (h : (b.allow t).1 = false) :
    (b.allow t).2.1 = b := by
  rcases b.allow_cases t with ⟨-, heq⟩ | ⟨-, -, heq⟩ | ⟨-, -, heq⟩ | ⟨-, heq⟩
  all_goals simp_all

theorem counted_eq_none {o : Offer} (h : o.fails = false) : counted o.countsFailure o.err = none := by
  unfold counted
  split
  · rename_i hcounts
    simpa [Offer.fails, hcounts] using h
  · rfl

theorem counted_eq_some {o : Offer} (h : o.fails = true) : ∃ err, counted o.countsFailure o.err = some err := by
  rw [Offer.fails, Bool.and_eq_true, Option.isSome_iff_exists] at h
  obtain ⟨hcounts, err, herr⟩ := h
  exact ⟨err, by rw [counted, if_pos hcounts, herr]⟩

theorem Automaton.Matches.complete {b : CircuitBreaker} {a : Automaton} (h : a.Matches b) {t t' : Time}
    (hruns : (b.allow t).1 = true) (o : Offer) :
    (a.next b.threshold b.resetTimeout o.fails t').Matches
      ((b.allow t).2.1.complete t' (counted o.countsFailure o.err)).1 := by
  cases hfails : o.fails with
  | false =>
    rw [counted_eq_none hfails]
    refine ⟨CircuitBreaker.complete_none .., ?_⟩
    unfold CircuitBreaker.complete
    dsimp only
    split <;> rfl
  | true =>
    obtain ⟨err, herr⟩ := counted_eq_some hfails
    rw [herr]
    cases a with
    | closed failures =>
      obtain ⟨hstate, rfl⟩ := h
      have hallow : (b.allow t).2.1 = b := by simp [CircuitBreaker.allow, hstate]
      rw [hallow]
      unfold next CircuitBreaker.complete
      by_cases hlt : b.failures + 1 < b.threshold
      · simp [hlt, Nat.not_le_of_lt hlt, Matches, hstate]
      · simp [hlt, Nat.le_of_not_lt hlt, Matches, hstate]
    | opened openUntil =>
      obtain ⟨hstate, rfl, hcount⟩ := h
      have hallow : (b.allow t).2.1 = { b with state := .stateHalfOpen } := by
        rcases b.allow_cases t with ⟨hclosed, -⟩ | ⟨-, -, heq⟩ | ⟨-, -, heq⟩ | ⟨hhalf, -⟩
        all_goals simp_all
      rw [hallow]
      unfold next CircuitBreaker.complete
      simp [Nat.le_succ_of_le hcount, Matches]

theorem behaves_visits {threshold resetTimeout : Nat} : ∀ (os : List Offer) {w : World} {i : Nat} {a : Automaton},
    w.breaker.threshold = threshold → w.breaker.resetTimeout = resetTimeout → a.Matches w.breaker →
      a.Behaves threshold resetTimeout os (w.visits i os)
  | [], _, _, _, _, _, _ => trivial
  | o :: os, w, i, a, hn, hr, h => by
    have hruns : (w.breaker.allow (w.visit i o).1.arrival).1 = a.runs (w.visit i o).1.arrival := a.runs_iff h _
    rw [World.visits, Automaton.Behaves, ← hruns]
    cases hallow : (w.breaker.allow (w.visit i o).1.arrival).1 with
    | false =>
      obtain ⟨hran, hreturned, hb⟩ := visit_of_refused i w hallow
      have hb : (w.visit i o).2.breaker = w.breaker := hb.trans (CircuitBreaker.allow_of_refused hallow)
      rw [if_neg Bool.false_ne_true]
      exact ⟨hran, hreturned, behaves_visits os (hb ▸ hn) (hb ▸ hr) (hb ▸ h)⟩
    | true =>
      obtain ⟨hran, hreturned, hb⟩ := visit_of_admitted i w hallow
      rw [if_pos rfl]
      refine ⟨hran, hreturned, behaves_visits os ?_ ?_ ?_⟩
      · rw [hb, CircuitBreaker.complete_threshold, CircuitBreaker.allow_threshold, hn]
      · rw [hb, CircuitBreaker.complete_resetTimeout, CircuitBreaker.allow_resetTimeout, hr]
      · rw [hb, ← hn, ← hr]
        exact h.complete hallow o

/-- Calls of `ExecuteClassified` one after the other, with any results,
classifiers and times: the breaker behaves as the automaton. -/
theorem breaker_behaves (failureThreshold resetTimeout : Int) (observer : Bool) (now : Time) (os : List Offer) :
    let b := newCircuitBreaker failureThreshold resetTimeout observer
    (Automaton.closed 0).Behaves b.threshold b.resetTimeout os (World.visits ⟨b, now, [], [], 0⟩ 0 os) :=
  behaves_visits os rfl rfl ⟨rfl, rfl⟩

end GameServer.Reliability
