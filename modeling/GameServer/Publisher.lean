import GameServer.Channel
import GameServer.Retry
import GameServer.SessionLifecycle

/-!
# The publisher of session lifecycle events

`Publish` puts an event into a queue or drops it, and one goroutine takes events
out of the queue and delivers each to an instance of the lobby and then of the
battle service, with retries that each draw an instance anew. Callers of
`Publish`, that goroutine and `Close` interleave freely; where a `select` has
several cases that are ready, the action says which is taken. The streams'
contents are kept beside the publisher, which does not have them.
-/

namespace GameServer.SessionLifecycle

open Reliability.Retry
open Gateway (LifecycleEvent LifecycleType Record lifecycleEvent)

inductive Target
  | lobby
  | battle
  deriving DecidableEq

/-- Where the goroutine of `run` is: at its `select`, in the retries of one
delivery with the targets that come after it, or gone. -/
inductive Loop
  | selecting
  | delivering (event : LifecycleEvent) (target : Target) (rest : List Target) (met : Progress)
      (retry : Prog Ans (Option GoErr))
  | stopped

/-- What `ObserveSessionLifecycle` is told. -/
inductive Observation
  | dropped (event : LifecycleEvent)
  | reported (target : Target) (event : LifecycleEvent) (delivered : Bool)

def reports (observed : List Observation) (target : Target) : List (LifecycleEvent × Bool) :=
  observed.filterMap fun
    | .reported t event delivered => if t = target then some (event, delivered) else none
    | .dropped _ => none

def delivered (observed : List Observation) (target : Target) : List LifecycleEvent :=
  ((reports observed target).filter (·.2)).map (·.1)

def dropped (observed : List Observation) : List LifecycleEvent :=
  observed.filterMap fun
    | .dropped event => some event
    | .reported _ _ _ => none

/-- `marshals` says which events `proto.Marshal` takes: those whose texts are
valid UTF-8. `streams` has what was sent, with the instance it went to. -/
structure SessionLifecyclePublisher where
  retry : RetryPolicy
  marshals : LifecycleEvent → Bool
  queue : Chan LifecycleEvent 256
  cancelled : Bool
  loop : Loop
  observed : List Observation
  streams : Target → List (Nat × LifecycleEvent)

def newSessionLifecyclePublisher (retry : RetryPolicy) (marshals : LifecycleEvent → Bool) : SessionLifecyclePublisher :=
  ⟨retry, marshals, .make, false, .selecting, [], fun _ => []⟩

/-- The targets of `deliver` that are left. -/
def deliverTo (retry : RetryPolicy) (event : LifecycleEvent) : List Target → Loop
  | [] => .selecting
  | target :: rest => .delivering event target rest {} retry.doOperation

namespace SessionLifecyclePublisher

variable (s : SessionLifecyclePublisher)

def stream (target : Target) (instanceID : Nat) : List LifecycleEvent :=
  ((s.streams target).filter (·.1 = instanceID)).map (·.2)

def publish (event : LifecycleEvent) (seesDone : Bool) : SessionLifecyclePublisher :=
  if s.cancelled ∧ seesDone then s
  else
    match s.queue.trySend event with
    | some queue => { s with queue }
    | none => if s.cancelled then s else { s with observed := s.observed ++ [.dropped event] }

/-- The `select` of `run`. An event that is not marshalled is only logged. -/
def take (seesDone : Bool) : SessionLifecyclePublisher :=
  if s.cancelled ∧ seesDone then { s with loop := .stopped }
  else
    match s.queue.tryRecv with
    | some (event, queue) =>
      { s with queue, loop := if s.marshals event then deliverTo s.retry event [.lobby, .battle] else .selecting }
    | none => if s.cancelled then { s with loop := .stopped } else s

/-- An attempt that put the event on the stream. -/
def sends : (c : Cmd) → Ans c → Bool
  | .operation, none => true
  | _, _ => false

/-- One command of the goroutine, which an attempt has with the instance drawn.
The context ends a wait only once it is cancelled. -/
def proceed (e : Env) (instanceID : Nat) (seesDone : Bool) : SessionLifecyclePublisher :=
  match s.loop with
  | .selecting => s.take seesDone
  | .stopped => s
  | .delivering event target rest met (.call c k) =>
    let e := if s.cancelled then e else { e with done := none }
    let r := (Progress.answer e met c).1
    { s with
      loop := .delivering event target rest (met.next c r) (k r)
      streams := if sends c r then Function.update s.streams target (s.streams target ++ [(instanceID, event)]) else s.streams }
  | .delivering event target rest _ (.ret result) =>
    { s with
      loop := deliverTo s.retry event rest
      observed := s.observed ++ [.reported target event result.isNone] }

end SessionLifecyclePublisher

inductive Action
  | publish (type : LifecycleType) (r : Record) (now : Time) (seesDone : Bool)
  | close
  | proceed (e : Env) (instanceID : Nat) (seesDone : Bool)

def Action.event? : Action → Option LifecycleEvent
  | .publish type r now _ => some (lifecycleEvent type r now)
  | _ => none

namespace SessionLifecyclePublisher

def step (s : SessionLifecyclePublisher) : Action → SessionLifecyclePublisher
  | .publish type r now seesDone => s.publish (lifecycleEvent type r now) seesDone
  | .close => { s with cancelled := true }
  | .proceed e instanceID seesDone => s.proceed e instanceID seesDone

def run (s : SessionLifecyclePublisher) (acts : List Action) : SessionLifecyclePublisher := acts.foldl step s

end SessionLifecyclePublisher

/-! ## Invariant -/

/-- Taken from the queue and not reported yet. -/
def Loop.due (target : Target) : Loop → List LifecycleEvent
  | .delivering event t rest _ _ => if target ∈ t :: rest then [event] else []
  | _ => []

/-- On the stream and not reported yet. -/
def Loop.inFlight (target : Target) : Loop → List LifecycleEvent
  | .delivering event t _ met _ => if target = t ∧ met.tries.getLast? = some none then [event] else []
  | _ => []

def Loop.Fine (retry : RetryPolicy) : Loop → Prop
  | .delivering _ t rest met prog => (t :: rest).Nodup ∧
      prog.Obeys (Progress.Allowed retry.withDefaults) Progress.next (Outcome retry.withDefaults) met
  | _ => True

theorem reports_concat (observed : List Observation) (target t : Target) (event : LifecycleEvent) (ok : Bool) :
    reports (observed ++ [.reported t event ok]) target =
      reports observed target ++ if t = target then [(event, ok)] else [] := by
  unfold reports
  rw [List.filterMap_append]
  split <;> simp_all

theorem reports_dropped (observed : List Observation) (target : Target) (event : LifecycleEvent) :
    reports (observed ++ [.dropped event]) target = reports observed target := by
  simp [reports]

variable {retry : RetryPolicy} {event : LifecycleEvent} {rest : List Target}

theorem due_deliverTo (target : Target) :
    (deliverTo retry event rest).due target = if target ∈ rest then [event] else [] := by
  cases rest with
  | nil => rfl
  | cons t rest => rfl

theorem inFlight_deliverTo (target : Target) : (deliverTo retry event rest).inFlight target = [] := by
  cases rest with
  | nil => rfl
  | cons t rest => exact if_neg fun h => absurd h.2 (by decide)

theorem fine_deliverTo (h : rest.Nodup) : (deliverTo retry event rest).Fine retry := by
  cases rest with
  | nil => trivial
  | cons t rest => exact ⟨h, obeys_doOperation retry⟩

namespace SessionLifecyclePublisher

structure Inv (s : SessionLifecyclePublisher) : Prop where
  taken : ∀ target, s.queue.received.filter s.marshals = (reports s.observed target).map (·.1) ++ s.loop.due target
  sent : ∀ target, (s.streams target).map (·.2) = delivered s.observed target ++ s.loop.inFlight target
  fine : s.loop.Fine s.retry

variable {s : SessionLifecyclePublisher}

theorem inv_new (retry : RetryPolicy) (marshals : LifecycleEvent → Bool) : Inv (newSessionLifecyclePublisher retry marshals) :=
  ⟨fun _ => rfl, fun _ => rfl, trivial⟩

theorem inv_publish (hi : Inv s) (event : LifecycleEvent) (seesDone : Bool) : Inv (s.publish event seesDone) := by
  unfold publish
  split
  · exact hi
  · cases hsend : s.queue.trySend event with
    | some queue =>
      exact ⟨fun target => (congrArg _ (Chan.trySend_eq_some hsend).2).trans (hi.taken target), hi.sent, hi.fine⟩
    | none =>
      dsimp only
      split
      · exact hi
      · refine ⟨fun target => ?_, fun target => ?_, hi.fine⟩
        · rw [reports_dropped]
          exact hi.taken target
        · rw [delivered, reports_dropped]
          exact hi.sent target

theorem inv_take (hi : Inv s) (hloop : s.loop = .selecting) (seesDone : Bool) : Inv (s.take seesDone) := by
  have htaken : ∀ target, s.queue.received.filter s.marshals = (reports s.observed target).map (·.1) := by
    intro target
    rw [hi.taken target, hloop]
    exact List.append_nil _
  have hsent : ∀ target, (s.streams target).map (·.2) = delivered s.observed target := by
    intro target
    rw [hi.sent target, hloop]
    exact List.append_nil _
  have hstop : Inv { s with loop := .stopped } :=
    ⟨fun target => (htaken target).trans (List.append_nil _).symm, fun target => (hsent target).trans (List.append_nil _).symm,
      trivial⟩
  unfold take
  split
  · exact hstop
  · cases hrecv : s.queue.tryRecv with
    | some p =>
      obtain ⟨event, queue⟩ := p
      have hreceived := (Chan.tryRecv_eq_some hrecv).2
      dsimp only
      split
      · rename_i hmarshals
        refine ⟨fun target => ?_, fun target => ?_, fine_deliverTo (by decide : [Target.lobby, .battle].Nodup)⟩
        · have htarget : target ∈ [Target.lobby, .battle] := by cases target <;> decide
          simp only [due_deliverTo, if_pos htarget, ← htaken target, hreceived, List.filter_append]
          simp [hmarshals]
        · simp only [inFlight_deliverTo, List.append_nil]
          exact hsent target
      · rename_i hmarshals
        refine ⟨fun target => ?_, fun target => (hsent target).trans (List.append_nil _).symm, trivial⟩
        simp [← htaken target, hreceived, hmarshals, Loop.due]
    | none =>
      dsimp only
      split
      · exact hstop
      · exact hi

theorem getLast?_next {p : RetryPolicy} {met : Progress} {c : Cmd} (hallowed : met.Allowed p c)
    (r : Ans c) :
    (sends c r = true → met.tries.getLast? ≠ some none ∧ (met.next c r).tries.getLast? = some none) ∧
      (sends c r = false → ((met.next c r).tries.getLast? = some none ↔ met.tries.getLast? = some none)) := by
  cases c with
  | operation =>
    have hbefore : met.tries.getLast? ≠ some none := by
      intro hlast
      obtain ⟨err, herr, -⟩ := hallowed.2 none (List.mem_of_getLast? hlast)
      cases herr
    cases r with
    | none => exact ⟨fun _ => ⟨hbefore, by simp [Progress.next]⟩, fun h => absurd h (by decide)⟩
    | some err => exact ⟨fun h => absurd h (by simp [sends]), fun _ => by simp [Progress.next, hbefore]⟩
  | wait delay => exact ⟨fun h => absurd h (by simp [sends]), fun _ => Iff.rfl⟩
  | now | onAttempt _ | onRetry _ _ | onComplete _ _ _ _ => exact ⟨fun h => absurd h (by simp [sends]), fun _ => Iff.rfl⟩

theorem inv_proceed (hi : Inv s) (e : Env) (instanceID : Nat) (seesDone : Bool) :
    Inv (s.proceed e instanceID seesDone) := by
  obtain ⟨retry, marshals, queue, cancelled, loop, observed, streams⟩ := s
  cases loop with
  | selecting => exact inv_take hi rfl seesDone
  | stopped => exact hi
  | delivering event t rest met prog =>
    obtain ⟨hnodup, hobeys⟩ := hi.fine
    cases prog with
    | call c k =>
      simp only [proceed]
      generalize (Progress.answer (if cancelled then e else { e with done := none }) met c).1 = r
      obtain ⟨hsends, hstays⟩ := getLast?_next hobeys.1 r
      refine ⟨hi.taken, fun target => ?_, hnodup, hobeys.2 r⟩
      have hsent := hi.sent target
      simp only [Loop.inFlight, delivered, reports] at hsent ⊢
      cases hs : sends c r with
      | true =>
        obtain ⟨hbefore, hafter⟩ := hsends hs
        by_cases htarget : target = t
        · subst htarget
          simpa [hafter, hbefore] using hsent
        · simpa [htarget, Function.update_of_ne htarget] using hsent
      | false => simpa [hstays hs] using hsent
    | ret result =>
      have hresult : result = none ↔ met.tries.getLast? = some none := Outcome.result_eq_none hobeys
      refine ⟨fun target => ?_, fun target => ?_, fine_deliverTo (List.nodup_cons.mp hnodup).2⟩
      · simp only [proceed, due_deliverTo]
        rw [reports_concat, hi.taken target]
        by_cases htarget : t = target
        · subst htarget
          simp [Loop.due, (List.nodup_cons.mp hnodup).1]
        · simp [Loop.due, htarget, Ne.symm htarget]
      · simp only [proceed, inFlight_deliverTo, delivered]
        rw [reports_concat]
        refine (hi.sent target).trans ?_
        by_cases htarget : t = target
        · subst htarget
          by_cases hok : result = none
          · simp [Loop.inFlight, delivered, hok, hresult.mp hok]
          · simp [Loop.inFlight, delivered, hok, mt hresult.mpr hok]
        · simp [Loop.inFlight, delivered, htarget, Ne.symm htarget]

/-! ## Runs -/

/-- What callers of `Publish` have handed over went into the queue, or was dropped
and reported so unless the publisher was closed. -/
structure Offered (offered : List LifecycleEvent) (s : SessionLifecyclePublisher) : Prop where
  sublist : s.queue.sent.Sublist offered
  perm : s.cancelled = false → (s.queue.sent ++ dropped s.observed).Perm offered

variable {offered : List LifecycleEvent}

theorem offered_publish (h : Offered offered s) (event : LifecycleEvent)
    (seesDone : Bool) : Offered (offered ++ [event]) (s.publish event seesDone) := by
  have hignored : s.cancelled = true → Offered (offered ++ [event]) s := fun hc =>
    ⟨h.sublist.trans (List.sublist_append_left ..), fun hnot => by rw [hc] at hnot; cases hnot⟩
  unfold publish
  split
  · rename_i hdone
    exact hignored hdone.1
  · cases hsend : s.queue.trySend event with
    | some queue =>
      have hsent := (Chan.trySend_eq_some hsend).1
      refine ⟨hsent ▸ h.sublist.append_right [event], fun hc => ?_⟩
      simp only [hsent, List.append_assoc]
      exact (List.perm_append_comm.append_left _).trans (by simpa using (h.perm hc).append_right [event])
    | none =>
      dsimp only
      split
      · rename_i hc
        exact hignored hc
      · refine ⟨h.sublist.trans (List.sublist_append_left ..), fun hc => ?_⟩
        simpa [dropped] using (h.perm hc).append_right [event]

theorem Offered.of_frame {s' : SessionLifecyclePublisher} (h : Offered offered s)
    (hqueue : s'.queue.sent = s.queue.sent) (hdropped : dropped s'.observed = dropped s.observed)
    (hcancelled : s'.cancelled = false → s.cancelled = false) : Offered offered s' :=
  ⟨hqueue ▸ h.sublist, fun hc => by rw [hqueue, hdropped]; exact h.perm (hcancelled hc)⟩

theorem offered_proceed (h : Offered offered s) (e : Env) (instanceID : Nat) (seesDone : Bool) :
    Offered offered (s.proceed e instanceID seesDone) := by
  unfold proceed
  split
  · unfold take
    split
    · exact h.of_frame rfl rfl id
    · cases hrecv : s.queue.tryRecv with
      | some p => exact h.of_frame (Chan.tryRecv_eq_some hrecv).1 rfl id
      | none =>
        dsimp only
        split
        · exact h.of_frame rfl rfl id
        · exact h
  · exact h
  · exact h.of_frame rfl rfl id
  · exact h.of_frame rfl (by simp [dropped]) id

theorem marshals_step (s : SessionLifecyclePublisher) (act : Action) : (s.step act).marshals = s.marshals := by
  cases act with
  | publish type r now seesDone =>
    simp only [step, publish]
    split
    · rfl
    · split
      · rfl
      · split <;> rfl
  | close => rfl
  | proceed e instanceID seesDone =>
    simp only [step, proceed]
    split
    · unfold take
      split
      · rfl
      · split
        · rfl
        · split <;> rfl
    all_goals rfl

theorem run_inv (retry : RetryPolicy) (marshals : LifecycleEvent → Bool) (acts : List Action) :
    let s := (newSessionLifecyclePublisher retry marshals).run acts
    s.marshals = marshals ∧ Inv s ∧ Offered (acts.filterMap Action.event?) s := by
  induction acts using List.reverseRecOn with
  | nil => exact ⟨rfl, inv_new retry marshals, List.Sublist.refl _, fun _ => .refl _⟩
  | append_singleton acts act ih =>
    obtain ⟨hm, hi, ho⟩ := ih
    rw [run, List.foldl_concat, List.filterMap_append]
    refine ⟨(marshals_step ..).trans hm, ?_⟩
    cases act with
    | publish type r now seesDone => exact ⟨inv_publish hi _ seesDone, offered_publish ho _ seesDone⟩
    | close =>
      refine ⟨⟨hi.taken, hi.sent, hi.fine⟩, ?_⟩
      rw [List.filterMap_cons_none rfl, List.filterMap_nil, List.append_nil]
      exact ho.of_frame rfl rfl fun h => Bool.noConfusion h
    | proceed e instanceID seesDone =>
      refine ⟨inv_proceed hi e instanceID seesDone, ?_⟩
      rw [List.filterMap_cons_none rfl, List.filterMap_nil, List.append_nil]
      exact offered_proceed ho e instanceID seesDone

theorem Inv.streams_sublist (hi : Inv s) (target : Target) : ((s.streams target).map (·.2)).Sublist s.queue.sent := by
  have hflight : (s.loop.inFlight target).Sublist (s.loop.due target) := by
    cases s.loop with
    | delivering event t rest met prog =>
      by_cases h : target = t ∧ met.tries.getLast? = some none
      · simp [Loop.inFlight, Loop.due, h]
      · simp [Loop.inFlight, if_neg h]
    | _ => exact .refl _
  have hdelivered : (delivered s.observed target).Sublist ((reports s.observed target).map (·.1)) :=
    List.filter_sublist.map _
  have htaken : (s.queue.received.filter s.marshals).Sublist s.queue.sent := by
    rw [s.queue.fifo]
    exact List.filter_sublist.trans (List.sublist_append_left ..)
  rw [hi.sent target]
  rw [hi.taken target] at htaken
  exact (hdelivered.append hflight).trans htaken

theorem Inv.at_rest (hi : Inv s) (hloop : s.loop = .selecting ∨ s.loop = .stopped) (target : Target) :
    (s.streams target).map (·.2) = delivered s.observed target ∧
      s.queue.sent.filter s.marshals = (reports s.observed target).map (·.1) ++ s.queue.buffer.filter s.marshals := by
  have hnone : s.loop.due target = [] ∧ s.loop.inFlight target = [] := by
    rcases hloop with h | h <;> rw [h] <;> exact ⟨rfl, rfl⟩
  have htaken := hi.taken target
  have hsent := hi.sent target
  rw [hnone.1, List.append_nil] at htaken
  rw [hnone.2, List.append_nil] at hsent
  exact ⟨hsent, by rw [s.queue.fifo, List.filter_append, htaken]⟩

/-- Any interleaving of `Publish`, `Close` and the goroutine of `run`: what is
published goes into the queue or, before `Close`, is reported as dropped; for each
target the events of the queue that can be marshalled are reported in their order,
each once; and the instances of a target together get each at most once, in that
order, and exactly if the report says so. -/
theorem publisher_accounts (retry : RetryPolicy) (marshals : LifecycleEvent → Bool) (acts : List Action) :
    let s := (newSessionLifecyclePublisher retry marshals).run acts
    s.queue.buffer.length ≤ 256 ∧ s.queue.sent.Sublist (acts.filterMap Action.event?) ∧
      (s.cancelled = false → (s.queue.sent ++ dropped s.observed).Perm (acts.filterMap Action.event?)) ∧
      ∀ target, (reports s.observed target).map (·.1) <+: s.queue.sent.filter marshals ∧
        ((s.streams target).map (·.2)).Sublist s.queue.sent ∧
        (s.loop = .selecting ∨ s.loop = .stopped → (s.streams target).map (·.2) = delivered s.observed target ∧
          s.queue.sent.filter marshals = (reports s.observed target).map (·.1) ++ s.queue.buffer.filter marshals) := by
  intro s
  obtain ⟨hm, hi, ho⟩ := run_inv retry marshals acts
  have hm : s.marshals = marshals := hm
  refine ⟨s.queue.bounded, ho.sublist, ho.perm, fun target => ⟨?_, hi.streams_sublist target, hm ▸ (hi.at_rest · target)⟩⟩
  rw [← hm, s.queue.fifo, List.filter_append, hi.taken target, List.append_assoc]
  exact List.prefix_append ..

/-- A consumer in an instance of a target never knows a later epoch of a session
than was published. It knows the latest one whenever the queue is empty, the
goroutine is at its `select`, nothing was reported as dropped or failed or could
not be marshalled, and no other instance of the target was drawn. -/
theorem consumer_follows (retry : RetryPolicy) (marshals : LifecycleEvent → Bool) (acts : List Action) (target : Target)
    (instanceID : Nat) (sessionID : String) :
    let s := (newSessionLifecyclePublisher retry marshals).run acts
    let events := (acts.filterMap Action.event?).map published
    let known := (newSessionLifecycleConsumer.acceptAll ((s.stream target instanceID).map published)).latest sessionID
    known ≤ largestEpoch sessionID events ∧
      (s.cancelled = false → s.loop = .selecting → s.queue.buffer = [] → dropped s.observed = [] →
        (∀ event ∈ s.queue.sent, marshals event = true) → (∀ report ∈ reports s.observed target, report.2 = true) →
        (∀ x ∈ s.streams target, x.1 = instanceID) → known = largestEpoch sessionID events) := by
  intro s events known
  obtain ⟨hm, hi, ho⟩ := run_inv retry marshals acts
  have hm : s.marshals = marshals := hm
  have hsub : ∀ e ∈ (s.stream target instanceID).map published, e ∈ events := by
    intro e he
    have hstream : (s.stream target instanceID).Sublist ((s.streams target).map (·.2)) := List.filter_sublist.map _
    exact ((hstream.trans ((hi.streams_sublist target).trans ho.sublist)).map published).subset he
  have hknown : known = largestEpoch sessionID ((s.stream target instanceID).map published) := by
    refine latest_acceptAll (determined_published fun e he => ?_) sessionID
    obtain ⟨event, hevent, rfl⟩ := List.mem_map.mp (hsub e he)
    obtain ⟨act, -, hact⟩ := List.mem_filterMap.mp hevent
    cases act with
    | publish type r now seesDone => exact ⟨type, r, now, congrArg published (Option.some.inj hact).symm⟩
    | close => cases hact
    | proceed e instanceID seesDone => cases hact
  rw [hknown]
  refine ⟨le_of_reached ?_ (largestEpoch_reached sessionID _), fun hopen hloop hempty hkept hmarshals hall hone => ?_⟩
  · rintro e he rfl
    exact le_largestEpoch (hsub e he)
  · obtain ⟨hstream, hsent⟩ := hi.at_rest (.inl hloop) target
    have hperm := ho.perm hopen
    rw [hm, List.filter_eq_self.mpr hmarshals, hempty, List.filter_nil, List.append_nil] at hsent
    have hstreams : s.stream target instanceID = s.queue.sent := by
      rw [stream, List.filter_eq_self.mpr fun x hx => decide_eq_true (hone x hx), hstream, hsent, delivered,
        List.filter_eq_self.mpr hall]
    rw [hkept, List.append_nil, ← hstreams] at hperm
    exact largestEpoch_congr (fun e => (hperm.map published).mem_iff) sessionID

end SessionLifecyclePublisher

end GameServer.SessionLifecycle
