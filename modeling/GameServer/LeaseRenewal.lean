import GameServer.UserCenterExec

/-!
# The user center: an execution and the renewal of its lease

`executeReserved` and the goroutine it starts, step by step: the context they
share, the buffered channel for the goroutine's error, and what either of them
does next. Other processes use the store between any two steps.

`executeReserved` cancels the context and waits for the goroutine, which may
have a `Renew` under way. The cancelled call fails, and its error takes the
place of the result.
-/

namespace GameServer.UserCenter.LeaseRenewal

/-! ## The two goroutines -/

inductive Main
  | execute (p : Handler)
  | awaitRenewal (r : Except GoErr MessageResult)
  | receive (r : Except GoErr MessageResult)
  | release (err : GoErr)
  | now (result : MessageResult)
  | complete (result : MessageResult) (now : Time)
  | returned (res : Except GoErr MessageResult) (w : World)

inductive Renewal
  | select
  | renew (now : Time)
  | send (err : GoErr)
  | cancel
  | ended
  deriving DecidableEq

structure State where
  world : World
  cancelled : Bool
  renewErr : Option GoErr
  main : Main
  renewal : Renewal

inductive Event
  | main (e : Env)
  | renewal (e : Env) (tick : Option Nat)
  | other (i : Nat) (e : Env) (cmd : Cmd)

section
variable (c : DomainAuthComponent) (key reservationID : String)

def State.init (w : World) (execute : Handler) : State where
  world := w
  cancelled := false
  renewErr := none
  main := .execute execute
  renewal := if renewInterval c = 0 then .ended else .select

def State.stepMain (s : State) (e : Env) : Option State :=
  match s.main with
  | .execute (.call cmd k) => (exec c 0 e s.world cmd).map fun (r, w) => { s with world := w, main := .execute (k r) }
  | .execute (.ret r) => some { s with cancelled := true, main := .awaitRenewal r }
  | .awaitRenewal r => if s.renewal = .ended then some { s with main := .receive r } else none
  | .receive (.error err) => some { s with renewErr := none, main := .release err }
  | .receive (.ok result) =>
    match s.renewErr with
    | some leaseErr => some { s with renewErr := none, main := .release leaseErr }
    | none => some { s with main := .now result }
  | .release err =>
    (exec c 0 e s.world (.release key reservationID)).map fun (_, w) =>
      { s with world := w, main := .returned (.error err) w }
  | .now result => (exec c 0 e s.world .now).map fun (now, w) => { s with world := w, main := .complete result now }
  | .complete result now =>
    (exec c 0 e s.world (.complete key reservationID result.message now)).map fun (r, w) =>
      { s with world := w, main := .returned (r.map fun _ => result) w }
  | .returned _ _ => none

def underContext (cancelled : Bool) (e : Env) : Env := if cancelled then { e with fail := some "context canceled" } else e

def State.stepRenewal (s : State) (e : Env) (tick : Option Nat) : Option State :=
  match s.renewal with
  | .select =>
    match tick with
    | some ago => some { s with renewal := .renew (s.world.clock - ago) }
    | none => if s.cancelled then some { s with renewal := .ended } else none
  | .renew now =>
    if key = "" ∨ reservationID = "" ∨ now + c.idempotencyLease ≤ now then
      some { s with renewal := .send errInvalidIdempotency }
    else
      (exec c 1 (underContext s.cancelled e) s.world (.renew key reservationID (now + c.idempotencyLease) now)).map
        fun (r, w) => { s with
          world := w
          renewal := match r with
            | .ok () => .select
            | .error err => .send err }
  | .send err => some { s with renewErr := s.renewErr.or (some err), renewal := .cancel }
  | .cancel => some { s with cancelled := true, renewal := .ended }
  | .ended => none

def State.next (s : State) : Event → Option State
  | .main e => s.stepMain c key reservationID e
  | .renewal e tick => s.stepRenewal c key reservationID e tick
  | .other i e cmd => (exec c i e s.world cmd).map fun (_, w) => { s with world := w }

def State.step (s : State) (ev : Event) : State := (s.next c key reservationID ev).getD s

def State.run (s : State) (evs : List Event) : State := evs.foldl (State.step c key reservationID) s

def State.Along (P : State → Event → Prop) : State → List Event → Prop
  | _, [] => True
  | s, ev :: evs => P s ev ∧ State.Along P (s.step c key reservationID ev) evs

end

/-! ## What is assumed, and what is in time -/

section
variable (key reservationID : String)

def Reserved (w : World) : Prop := ∃ d ∈ w.records, releaseFilter key reservationID d = true

def Lasting (now : Time) (w : World) : Prop := ∀ d ∈ w.records, releaseFilter key reservationID d = true → now < d.expiresAt

def Allowed (s : State) : Event → Prop
  | .main e => ∀ result now, s.main = .complete result now → Reserved key reservationID s.world ∧ e.fail = none
  | .renewal e _ => ∀ now, s.renewal = .renew now → Reserved key reservationID s.world ∧ (s.cancelled = false → e.fail = none)
  | .other _ _ _ => True

def Timely (s : State) : Event → Prop
  | .main _ => ∀ result now, s.main = .complete result now → Lasting key reservationID now s.world
  | .renewal _ _ => ∀ now, s.renewal = .renew now → s.cancelled = false ∧ Lasting key reservationID now s.world
  | .other _ _ _ => True

end

variable {c : DomainAuthComponent} {key reservationID : String} {s : State} {ev : Event} {e : Env} {w : World} {now : Time}

/-! ## The store -/

theorem releaseFilter_pins (key reservationID : String) : Coll.Pins idempotencyIndexes (releaseFilter key reservationID) := by
  intro a b ha hb
  simp only [releaseFilter, Bool.and_eq_true, beq_iff_eq] at ha hb
  simp [idempotencyIndexes, ha.1.1, hb.1.1]

theorem ownedFilter_eq (key reservationID : String) (now : Time) (d : IdempotencyRecord) :
    ownedFilter key reservationID now d = (releaseFilter key reservationID d && decide (now < d.expiresAt)) := rfl

theorem findOne_lasting (hr : Reserved key reservationID w) (hl : Lasting key reservationID now w) :
    ∃ d, w.records.findOne (ownedFilter key reservationID now) = some d ∧ releaseFilter key reservationID d = true := by
  obtain ⟨d, hd, hf⟩ := hr
  refine ⟨d, Coll.findOne_eq_some hd ?_ fun x _ hx => ?_, hf⟩
  · rw [ownedFilter_eq, hf, Bool.true_and]
    exact decide_eq_true (hl d hd hf)
  · rw [ownedFilter_eq, Bool.and_eq_true] at hx
    exact releaseFilter_pins key reservationID d x hf hx.1

theorem findOne_not_lasting (hl : ¬ Lasting key reservationID now w) :
    w.records.findOne (ownedFilter key reservationID now) = none := by
  simp only [Lasting, not_forall] at hl
  obtain ⟨d, hd, hf, hexp⟩ := hl
  rw [Coll.findOne_eq_none]
  intro x hx
  rw [ownedFilter_eq]
  by_cases hfx : releaseFilter key reservationID x = true
  · rw [Coll.eq_of_clash hx hd (releaseFilter_pins key reservationID x d hfx hf), hf, Bool.true_and]
    exact decide_eq_false hexp
  · rw [Bool.eq_false_iff.mpr hfx, Bool.false_and]

def Stored (key reservationID : String) (response : Message) (w : World) : Prop :=
  ∃ d ∈ w.records, d.key = key ∧ d.reservationID = reservationID ∧ d.state = .completed ∧ d.response = some response

theorem exec_complete_lasting {response : Message} (hr : Reserved key reservationID w) (hl : Lasting key reservationID now w)
    (he : e.fail = none) :
    ∃ w', exec c 0 e w (.complete key reservationID response now) = some (.ok (), w') ∧
      Stored key reservationID response w' := by
  obtain ⟨d, hfind, hf⟩ := findOne_lasting hr hl
  have hmem := Coll.mem_updateOne_of_findOne (ownedFilter_pins key reservationID now) (completedWith_keepsKeys response) hfind
  simp only [releaseFilter, Bool.and_eq_true, beq_iff_eq] at hf
  refine ⟨{ w with
    clock := w.clock + e.delay
    records := w.records.updateOne (ownedFilter key reservationID now) (.completedWith response) (completedWith_keepsKeys response) },
    ?_, d.completedWith response, (hmem _).mpr (.inr rfl), hf.1.1, hf.2, rfl, rfl⟩
  simp only [exec, he, World.answer, World.complete, hfind, commit]

theorem exec_complete_not_lasting {response : Message} (hl : ¬ Lasting key reservationID now w) (he : e.fail = none) :
    ∃ w', exec c 0 e w (.complete key reservationID response now) = some (.error errIdempotencyConflict, w') := by
  have hfind := findOne_not_lasting hl
  simp only [exec, he, World.answer, World.complete, hfind, commit]
  exact ⟨_, rfl⟩

theorem exec_renew_lasting {leaseUntil : Time} (hr : Reserved key reservationID w) (hl : Lasting key reservationID now w)
    (he : e.fail = none) : ∃ w', exec c 1 e w (.renew key reservationID leaseUntil now) = some (.ok (), w') := by
  obtain ⟨d, hfind, -⟩ := findOne_lasting hr hl
  simp only [exec, he, World.answer, World.renew, hfind, commit]
  exact ⟨_, rfl⟩

theorem exec_renew_not_lasting {leaseUntil : Time} (hl : ¬ Lasting key reservationID now w) (he : e.fail = none) :
    ∃ err w', exec c 1 e w (.renew key reservationID leaseUntil now) = some (.error err, w') := by
  have hfind := findOne_not_lasting hl
  simp only [exec, he, World.answer, World.renew, hfind, commit]
  exact ⟨_, _, rfl⟩

theorem exec_renew_failed {leaseUntil : Time} {text : String} (he : e.fail = some text) :
    ∃ err w', exec c 1 e w (.renew key reservationID leaseUntil now) = some (.error err, w') := by
  simp only [exec, he, failed, Option.bind_some, World.answer]
  split
  · exact ⟨_, _, rfl⟩
  · exact ⟨_, _, rfl⟩

/-! ## What a step can do -/

section
variable (c : DomainAuthComponent) (key reservationID : String) (s : State) (e : Env)

inductive MainStep : State → Prop
  | call {cmd : Cmd} {k : Ans cmd → Handler} {r : Ans cmd} {w : World} (hmain : s.main = .execute (.call cmd k))
      (hx : exec c 0 e s.world cmd = some (r, w)) : MainStep { s with world := w, main := .execute (k r) }
  | cancel {r : Except GoErr MessageResult} (hmain : s.main = .execute (.ret r)) :
      MainStep { s with cancelled := true, main := .awaitRenewal r }
  | awaited {r : Except GoErr MessageResult} (hmain : s.main = .awaitRenewal r) (hended : s.renewal = .ended) :
      MainStep { s with main := .receive r }
  | executeErr {err : GoErr} (hmain : s.main = .receive (.error err)) :
      MainStep { s with renewErr := none, main := .release err }
  | leaseErr {result : MessageResult} {err : GoErr} (hmain : s.main = .receive (.ok result)) (herr : s.renewErr = some err) :
      MainStep { s with renewErr := none, main := .release err }
  | finished {result : MessageResult} (hmain : s.main = .receive (.ok result)) (herr : s.renewErr = none) :
      MainStep { s with main := .now result }
  | release {err : GoErr} {r : Except GoErr Unit} {w : World} (hmain : s.main = .release err)
      (hx : exec c 0 e s.world (.release key reservationID) = some (r, w)) :
      MainStep { s with world := w, main := .returned (.error err) w }
  | now {result : MessageResult} {now : Time} {w : World} (hmain : s.main = .now result)
      (hx : exec c 0 e s.world .now = some (now, w)) : MainStep { s with world := w, main := .complete result now }
  | complete {result : MessageResult} {now : Time} {r : Except GoErr Unit} {w : World} (hmain : s.main = .complete result now)
      (hx : exec c 0 e s.world (.complete key reservationID result.message now) = some (r, w)) :
      MainStep { s with world := w, main := .returned (r.map fun _ => result) w }

inductive RenewalStep : State → Prop
  | tick {now : Time} (hrenewal : s.renewal = .select) : RenewalStep { s with renewal := .renew now }
  | done (hrenewal : s.renewal = .select) (hcancelled : s.cancelled = true) : RenewalStep { s with renewal := .ended }
  | invalid {now : Time} (hrenewal : s.renewal = .renew now)
      (hbad : key = "" ∨ reservationID = "" ∨ now + c.idempotencyLease ≤ now) :
      RenewalStep { s with renewal := .send errInvalidIdempotency }
  | renewed {now : Time} {w : World} (hrenewal : s.renewal = .renew now)
      (hx : exec c 1 (underContext s.cancelled e) s.world (.renew key reservationID (now + c.idempotencyLease) now) =
        some (.ok (), w)) : RenewalStep { s with world := w, renewal := .select }
  | refused {now : Time} {err : GoErr} {w : World} (hrenewal : s.renewal = .renew now)
      (hx : exec c 1 (underContext s.cancelled e) s.world (.renew key reservationID (now + c.idempotencyLease) now) =
        some (.error err, w)) : RenewalStep { s with world := w, renewal := .send err }
  | send {err : GoErr} (hrenewal : s.renewal = .send err) :
      RenewalStep { s with renewErr := s.renewErr.or (some err), renewal := .cancel }
  | cancel (hrenewal : s.renewal = .cancel) : RenewalStep { s with cancelled := true, renewal := .ended }

end

theorem mainStep_of {s' : State} (h : s.stepMain c key reservationID e = some s') : MainStep c key reservationID s e s' := by
  unfold State.stepMain at h
  split at h
  · rename_i hmain
    obtain ⟨⟨r, w⟩, hx, rfl⟩ := Option.map_eq_some_iff.mp h
    exact .call hmain hx
  · rename_i hmain
    cases h
    exact .cancel hmain
  · rename_i hmain
    split at h
    · rename_i hended
      cases h
      exact .awaited hmain hended
    · cases h
  · rename_i hmain
    cases h
    exact .executeErr hmain
  · rename_i hmain
    split at h
    · rename_i herr
      cases h
      exact .leaseErr hmain herr
    · rename_i herr
      cases h
      exact .finished hmain herr
  · rename_i hmain
    obtain ⟨⟨r, w⟩, hx, rfl⟩ := Option.map_eq_some_iff.mp h
    exact .release hmain hx
  · rename_i hmain
    obtain ⟨⟨now, w⟩, hx, rfl⟩ := Option.map_eq_some_iff.mp h
    exact .now hmain hx
  · rename_i hmain
    obtain ⟨⟨r, w⟩, hx, rfl⟩ := Option.map_eq_some_iff.mp h
    exact .complete hmain hx
  · cases h

theorem renewalStep_of {s' : State} {tick : Option Nat} (h : s.stepRenewal c key reservationID e tick = some s') :
    RenewalStep c key reservationID s e s' := by
  unfold State.stepRenewal at h
  split at h
  · rename_i hrenewal
    split at h
    · cases h
      exact .tick hrenewal
    · split at h
      · rename_i hcancelled
        cases h
        exact .done hrenewal hcancelled
      · cases h
  · rename_i hrenewal
    split at h
    · rename_i hbad
      cases h
      exact .invalid hrenewal hbad
    · obtain ⟨⟨r, w⟩, hx, rfl⟩ := Option.map_eq_some_iff.mp h
      cases r with
      | ok _ => exact .renewed hrenewal hx
      | error err => exact .refused hrenewal hx
  · rename_i hrenewal
    cases h
    exact .send hrenewal
  · rename_i hrenewal
    cases h
    exact .cancel hrenewal
  · cases h

theorem RenewalStep.main_eq {s' : State} (h : RenewalStep c key reservationID s e s') : s'.main = s.main := by
  cases h <;> rfl

theorem RenewalStep.renewal_ne {s' : State} (h : RenewalStep c key reservationID s e s') : s.renewal ≠ .ended := by
  cases h <;> simp_all

theorem RenewalStep.cancelled_of {s' : State} (h : RenewalStep c key reservationID s e s') (hs : s.cancelled = true) :
    s'.cancelled = true := by
  cases h <;> simp_all

theorem RenewalStep.renewErr_ne {s' : State} (h : RenewalStep c key reservationID s e s')
    (hs : (∃ err, s.renewal = .send err) ∨ s.renewErr ≠ none) : s'.renewErr ≠ none := by
  cases h <;> simp_all

theorem step_of {P : State → Prop} (hs : P s) (hmain : ∀ e s', ev = .main e → MainStep c key reservationID s e s' → P s')
    (hrenewal : ∀ e tick s', ev = .renewal e tick → RenewalStep c key reservationID s e s' → P s')
    (hother : ∀ w, P { s with world := w }) : P (s.step c key reservationID ev) := by
  unfold State.step
  cases hnext : s.next c key reservationID ev with
  | none => exact hs
  | some s' =>
    cases ev with
    | main e => exact hmain e s' rfl (mainStep_of hnext)
    | renewal e tick => exact hrenewal e tick s' rfl (renewalStep_of hnext)
    | other i e cmd =>
      obtain ⟨⟨_, w⟩, -, rfl⟩ := Option.map_eq_some_iff.mp hnext
      exact hother w

/-! ## What holds of every run -/

def Ordered (s : State) : Prop :=
  match s.main with
  | .execute _ => True
  | .awaitRenewal _ => s.cancelled = true
  | _ => s.renewal = .ended

structure Clear (s : State) : Prop where
  renewErr : s.renewErr = none
  renewal : ∀ err, s.renewal ≠ .send err

def Spoiled (s : State) : Prop :=
  match s.main with
  | .execute _ | .awaitRenewal _ => (∃ err, s.renewal = .send err) ∨ s.renewErr ≠ none
  | .receive _ => s.renewErr ≠ none
  | .release _ => True
  | .returned res _ => ∃ err, res = .error err
  | .now _ | .complete _ _ => False

theorem Ordered.step (h : Ordered s) : Ordered (s.step c key reservationID ev) := by
  refine step_of h (fun e s' _ hstep => ?_) (fun e tick s' _ hstep => ?_) fun w => h
  · cases hstep with
    | call hmain hx => trivial
    | cancel hmain => rfl
    | awaited hmain hended => exact hended
    | executeErr hmain => simpa only [Ordered, hmain] using h
    | leaseErr hmain herr => simpa only [Ordered, hmain] using h
    | finished hmain herr => simpa only [Ordered, hmain] using h
    | release hmain hx => simpa only [Ordered, hmain] using h
    | now hmain hx => simpa only [Ordered, hmain] using h
    | complete hmain hx => simpa only [Ordered, hmain] using h
  · unfold Ordered at h ⊢
    rw [hstep.main_eq]
    split at h
    · trivial
    · exact hstep.cancelled_of h
    · exact absurd h hstep.renewal_ne

theorem Ordered.early (h : Ordered s) (hne : s.renewal ≠ .ended) :
    (∃ p, s.main = .execute p) ∨ ∃ r, s.main = .awaitRenewal r := by
  unfold Ordered at h
  split at h
  · exact .inl ⟨_, ‹_›⟩
  · exact .inr ⟨_, ‹_›⟩
  · exact absurd h hne

theorem Clear.step (hvalid : key ≠ "" ∧ reservationID ≠ "" ∧ 0 < c.idempotencyLease) (h : Clear s)
    (ha : Allowed key reservationID s ev) (ht : Timely key reservationID s ev) : Clear (s.step c key reservationID ev) := by
  refine step_of h (fun e s' _ hstep => ?_) (fun e tick s' hev hstep => ?_) fun w => ⟨h.renewErr, h.renewal⟩
  · cases hstep with
    | executeErr hmain => exact ⟨rfl, h.renewal⟩
    | leaseErr hmain herr => exact ⟨rfl, h.renewal⟩
    | _ => exact ⟨h.renewErr, h.renewal⟩
  · cases hev
    cases hstep with
    | tick hrenewal => exact ⟨h.renewErr, by simp⟩
    | done hrenewal hcancelled => exact ⟨h.renewErr, by simp⟩
    | invalid hrenewal hbad =>
      rcases hbad with hkey | hid | hlease
      · exact absurd hkey hvalid.1
      · exact absurd hid hvalid.2.1
      · exact absurd hlease (Nat.not_le.mpr (Nat.lt_add_of_pos_right hvalid.2.2))
    | renewed hrenewal hx => exact ⟨h.renewErr, by simp⟩
    | refused hrenewal hx =>
      obtain ⟨hreserved, hfail⟩ := ha _ hrenewal
      obtain ⟨hcancelled, hlasting⟩ := ht _ hrenewal
      obtain ⟨w', hok⟩ := exec_renew_lasting hreserved hlasting (hfail hcancelled)
      rw [hcancelled, underContext, if_neg Bool.false_ne_true, hok] at hx
      cases hx
    | send hrenewal => exact absurd hrenewal (h.renewal _)
    | cancel hrenewal => exact ⟨h.renewErr, by simp⟩

theorem spoiled_of_not_timely (ho : Ordered s) (ha : Allowed key reservationID s ev) (ht : ¬ Timely key reservationID s ev) :
    Spoiled (s.step c key reservationID ev) := by
  cases ev with
  | other i e cmd => exact absurd trivial ht
  | main e =>
    simp only [Timely, not_forall] at ht
    obtain ⟨result, now, hmain, hlasting⟩ := ht
    have hfails : ∃ w', exec c 0 e s.world (.complete key reservationID result.message now) =
        some (.error errIdempotencyConflict, w') := exec_complete_not_lasting hlasting (ha _ _ hmain).2
    obtain ⟨w', hx⟩ := hfails
    simp only [State.step, State.next, State.stepMain, hmain, hx, Option.map_some, Option.getD_some]
    exact ⟨_, rfl⟩
  | renewal e tick =>
    simp only [Timely, not_forall] at ht
    obtain ⟨now, hrenewal, hlate⟩ := ht
    have hfails : ∃ err w', exec c 1 (underContext s.cancelled e) s.world
        (.renew key reservationID (now + c.idempotencyLease) now) = some (.error err, w') := by
      unfold underContext
      split
      · exact exec_renew_failed rfl
      · rename_i hcancelled
        rw [Bool.not_eq_true] at hcancelled
        exact exec_renew_not_lasting (fun hl => hlate ⟨hcancelled, hl⟩) ((ha _ hrenewal).2 hcancelled)
    have hsend : ∃ err, (s.step c key reservationID (.renewal e tick)).renewal = .send err := by
      simp only [State.step, State.next, State.stepRenewal, hrenewal]
      split
      · exact ⟨_, rfl⟩
      · obtain ⟨err, w', hx⟩ := hfails
        rw [hx]
        exact ⟨err, rfl⟩
    have hmain : (s.step c key reservationID (.renewal e tick)).main = s.main :=
      step_of (P := fun s' => s'.main = s.main) rfl (by simp) (fun _ _ _ _ hstep => hstep.main_eq) fun _ => rfl
    rcases ho.early (by simp [hrenewal]) with ⟨p, hp⟩ | ⟨r, hr⟩
    · rw [Spoiled, hmain, hp]
      exact .inl hsend
    · rw [Spoiled, hmain, hr]
      exact .inl hsend

theorem Spoiled.step (h : Spoiled s) : Spoiled (s.step c key reservationID ev) := by
  refine step_of h (fun e s' _ hstep => ?_) (fun e tick s' _ hstep => ?_) fun w => h
  · cases hstep with
    | call hmain hx => simpa only [Spoiled, hmain] using h
    | cancel hmain => simpa only [Spoiled, hmain] using h
    | awaited hmain hended =>
      simp only [Spoiled, hmain, hended] at h
      simpa [Spoiled] using h
    | executeErr hmain => trivial
    | leaseErr hmain herr => trivial
    | finished hmain herr =>
      simp only [Spoiled, hmain] at h
      exact absurd herr h
    | release hmain hx => exact ⟨_, rfl⟩
    | now hmain hx => simp only [Spoiled, hmain] at h
    | complete hmain hx => simp only [Spoiled, hmain] at h
  · have hkeeps := hstep.renewErr_ne
    unfold Spoiled at h ⊢
    rw [hstep.main_eq]
    cases hmain : s.main with
    | execute p =>
      rw [hmain] at h
      exact .inr (hkeeps h)
    | awaitRenewal r =>
      rw [hmain] at h
      exact .inr (hkeeps h)
    | receive r =>
      rw [hmain] at h
      exact hkeeps (.inr h)
    | release err => trivial
    | now result => simp only [hmain] at h
    | complete result now => simp only [hmain] at h
    | returned res w => simpa only [hmain] using h

def Finishing (key reservationID : String) (result : MessageResult) (s : State) : Prop :=
  match s.main with
  | .execute p => p = .ret (.ok result)
  | .awaitRenewal r | .receive r => r = .ok result
  | .now r | .complete r _ => r = result
  | .release _ => False
  | .returned res w => res = .ok result ∧ Stored key reservationID result.message w

theorem Finishing.step {result : MessageResult} (h : Finishing key reservationID result s) (hclear : Clear s)
    (ha : Allowed key reservationID s ev) (ht : Timely key reservationID s ev) :
    Finishing key reservationID result (s.step c key reservationID ev) := by
  refine step_of h (fun e s' hev hstep => ?_) (fun e tick s' _ hstep => ?_) fun w => h
  · cases hstep with
    | call hmain hx =>
      simp only [Finishing, hmain] at h
      cases h
    | cancel hmain =>
      simp only [Finishing, hmain, Prog.ret.injEq] at h
      exact h
    | awaited hmain hended => simpa only [Finishing, hmain] using h
    | executeErr hmain =>
      simp only [Finishing, hmain] at h
      cases h
    | leaseErr hmain herr =>
      rw [hclear.renewErr] at herr
      cases herr
    | finished hmain herr =>
      simp only [Finishing, hmain, Except.ok.injEq] at h
      exact h
    | release hmain hx => simp only [Finishing, hmain] at h
    | now hmain hx => simpa only [Finishing, hmain] using h
    | complete hmain hx =>
      cases hev
      simp only [Finishing, hmain] at h
      cases h
      obtain ⟨hreserved, hfail⟩ := ha _ _ hmain
      obtain ⟨w', hok, hstored⟩ := exec_complete_lasting hreserved (ht _ _ hmain) hfail
      rw [hok] at hx
      cases hx
      exact ⟨rfl, hstored⟩
  · unfold Finishing at h ⊢
    rwa [hstep.main_eq]

/-! ## Runs -/

theorem along_append {P : State → Event → Prop} : ∀ (evs evs' : List Event) (s : State),
    s.Along c key reservationID P (evs ++ evs') ↔
      s.Along c key reservationID P evs ∧ (s.run c key reservationID evs).Along c key reservationID P evs'
  | [], _, _ => ⟨fun h => ⟨trivial, h⟩, fun h => h.2⟩
  | ev :: evs, evs', s => by
    rw [List.cons_append, State.Along, along_append evs evs', State.Along, and_assoc]
    rfl

theorem run_append (s : State) (evs evs' : List Event) :
    s.run c key reservationID (evs ++ evs') = (s.run c key reservationID evs).run c key reservationID evs' := List.foldl_append

theorem ordered_run : ∀ (evs : List Event) {s : State}, Ordered s → Ordered (s.run c key reservationID evs)
  | [], _, h => h
  | _ :: evs, _, h => ordered_run evs h.step

theorem spoiled_run : ∀ (evs : List Event) {s : State}, Spoiled s → Spoiled (s.run c key reservationID evs)
  | [], _, h => h
  | _ :: evs, _, h => spoiled_run evs h.step

theorem clear_run (hvalid : key ≠ "" ∧ reservationID ≠ "" ∧ 0 < c.idempotencyLease) : ∀ (evs : List Event) {s : State}, Clear s →
    s.Along c key reservationID (Allowed key reservationID) evs → s.Along c key reservationID (Timely key reservationID) evs →
    Clear (s.run c key reservationID evs)
  | [], _, h, _, _ => h
  | _ :: evs, _, h, ha, ht => clear_run hvalid evs (h.step hvalid ha.1 ht.1) ha.2 ht.2

theorem finishing_run {result : MessageResult} (hvalid : key ≠ "" ∧ reservationID ≠ "" ∧ 0 < c.idempotencyLease) :
    ∀ (evs : List Event) {s : State}, Clear s → Finishing key reservationID result s →
    s.Along c key reservationID (Allowed key reservationID) evs → s.Along c key reservationID (Timely key reservationID) evs →
    Finishing key reservationID result (s.run c key reservationID evs)
  | [], _, _, h, _, _ => h
  | _ :: evs, _, hc, h, ha, ht =>
    finishing_run hvalid evs (hc.step hvalid ha.1 ht.1) (h.step hc ha.1 ht.1) ha.2 ht.2

theorem spoiled_of_not_along : ∀ (evs : List Event) {s : State}, Ordered s →
    s.Along c key reservationID (Allowed key reservationID) evs → ¬ s.Along c key reservationID (Timely key reservationID) evs →
    Spoiled (s.run c key reservationID evs)
  | [], _, _, _, ht => absurd trivial ht
  | ev :: evs, s, ho, ha, ht => by
    by_cases hev : Timely key reservationID s ev
    · exact spoiled_of_not_along evs ho.step ha.2 fun h => ht ⟨hev, h⟩
    · exact spoiled_run evs (spoiled_of_not_timely ho ha.1 hev)

/-! ## The way to the end -/

section
variable (c : DomainAuthComponent) (key reservationID : String)

def Ends (s : State) : Prop := ∃ evs res w, (s.run c key reservationID evs).main = .returned res w

variable {c key reservationID}

theorem Ends.of_step (ev : Event) (h : Ends c key reservationID (s.step c key reservationID ev)) : Ends c key reservationID s := by
  obtain ⟨evs, res, w, h⟩ := h
  exact ⟨ev :: evs, res, w, h⟩

theorem Ends.of_returned {res : Except GoErr MessageResult} (hmain : s.main = .returned res w) : Ends c key reservationID s :=
  ⟨[], res, w, hmain⟩

theorem Ends.of_release {err : GoErr} (hmain : s.main = .release err) : Ends c key reservationID s := by
  refine .of_step (.main {}) ?_
  simp only [State.step, State.next, State.stepMain, hmain, exec, World.answer, Option.map_some, Option.getD_some]
  exact .of_returned rfl

theorem Ends.of_complete {result : MessageResult} {now : Time} (hmain : s.main = .complete result now) :
    Ends c key reservationID s := by
  refine .of_step (.main {}) ?_
  simp only [State.step, State.next, State.stepMain, hmain, exec, World.answer, Option.map_some, Option.getD_some]
  exact .of_returned rfl

theorem Ends.of_now {result : MessageResult} (hmain : s.main = .now result) : Ends c key reservationID s := by
  refine .of_step (.main {}) ?_
  simp only [State.step, State.next, State.stepMain, hmain, exec, World.answer, Option.map_some, Option.getD_some]
  exact .of_complete rfl

variable {r : Except GoErr MessageResult}

theorem Ends.of_receive (hmain : s.main = .receive r) : Ends c key reservationID s := by
  refine .of_step (.main {}) ?_
  cases r with
  | error err =>
    simp only [State.step, State.next, State.stepMain, hmain, Option.getD_some]
    exact .of_release rfl
  | ok result =>
    cases herr : s.renewErr with
    | some err =>
      simp only [State.step, State.next, State.stepMain, hmain, herr, Option.getD_some]
      exact .of_release rfl
    | none =>
      simp only [State.step, State.next, State.stepMain, hmain, herr, Option.getD_some]
      exact .of_now rfl

theorem Ends.of_ended (hmain : s.main = .awaitRenewal r) (hrenewal : s.renewal = .ended) :
    Ends c key reservationID s := by
  refine .of_step (.main {}) ?_
  simp only [State.step, State.next, State.stepMain, hmain, hrenewal, if_true, Option.getD_some]
  exact .of_receive rfl

theorem Ends.of_cancel (hmain : s.main = .awaitRenewal r) (hrenewal : s.renewal = .cancel) :
    Ends c key reservationID s := by
  refine .of_step (.renewal {} none) ?_
  simp only [State.step, State.next, State.stepRenewal, hrenewal, Option.getD_some]
  exact .of_ended hmain rfl

theorem Ends.of_send {err : GoErr} (hmain : s.main = .awaitRenewal r) (hrenewal : s.renewal = .send err) :
    Ends c key reservationID s := by
  refine .of_step (.renewal {} none) ?_
  simp only [State.step, State.next, State.stepRenewal, hrenewal, Option.getD_some]
  exact .of_cancel hmain rfl

theorem Ends.of_select (hmain : s.main = .awaitRenewal r) (hcancelled : s.cancelled = true)
    (hrenewal : s.renewal = .select) : Ends c key reservationID s := by
  refine .of_step (.renewal {} none) ?_
  simp only [State.step, State.next, State.stepRenewal, hrenewal, hcancelled, if_true, Option.getD_some]
  exact .of_ended hmain rfl

theorem Ends.of_renew (hmain : s.main = .awaitRenewal r) (hcancelled : s.cancelled = true)
    (hrenewal : s.renewal = .renew now) : Ends c key reservationID s := by
  refine .of_step (.renewal {} none) ?_
  have hfails : ∃ err w', exec c 1 (underContext s.cancelled {}) s.world
      (.renew key reservationID (now + c.idempotencyLease) now) = some (.error err, w') := by
    rw [underContext, if_pos hcancelled]
    exact exec_renew_failed rfl
  obtain ⟨err, w', hx⟩ := hfails
  simp only [State.step, State.next, State.stepRenewal, hrenewal, hx, Option.map_some]
  split
  · exact .of_send hmain rfl
  · exact .of_send hmain rfl

theorem Ends.of_ordered (h : Ordered s) (hmain : ∀ cmd k, s.main ≠ .execute (.call cmd k)) : Ends c key reservationID s := by
  have hawait : ∀ s : State, Ordered s → ∀ r, s.main = .awaitRenewal r → Ends c key reservationID s := by
    intro s h r hr
    simp only [Ordered, hr] at h
    cases hrenewal : s.renewal with
    | select => exact .of_select hr h hrenewal
    | renew now => exact .of_renew hr h hrenewal
    | send err => exact .of_send hr hrenewal
    | cancel => exact .of_cancel hr hrenewal
    | ended => exact .of_ended hr hrenewal
  cases hs : s.main with
  | execute p =>
    cases p with
    | call cmd k => exact absurd hs (hmain cmd k)
    | ret r =>
      refine .of_step (.main {}) (hawait _ h.step r ?_)
      simp only [State.step, State.next, State.stepMain, hs, Option.getD_some]
  | awaitRenewal r => exact hawait s h r hs
  | receive r => exact .of_receive hs
  | release err => exact .of_release hs
  | now result => exact .of_now hs
  | complete result now => exact .of_complete hs
  | returned res w => exact .of_returned hs

end

theorem executed_run : ∀ (evs : List Event) {s : State}, (∀ cmd k, s.main ≠ .execute (.call cmd k)) →
    ∀ cmd k, (s.run c key reservationID evs).main ≠ .execute (.call cmd k)
  | [], _, h => h
  | _ :: evs, s, h => by
    refine executed_run evs (step_of (P := fun s' => ∀ cmd k, s'.main ≠ .execute (.call cmd k)) h (fun e s' _ hstep => ?_)
      (fun e tick s' _ hstep => ?_) fun w => h)
    · cases hstep with
      | call hmain hx => exact absurd hmain (h _ _)
      | _ => simp
    · rwa [hstep.main_eq]

/-- A call whose execution has finished with a result can return. It returns that
result, completed and never released, exactly if the record has not expired at
any renewal or at the completion. -/
theorem finished_kept_iff (c : DomainAuthComponent) (key reservationID : String)
    (hvalid : key ≠ "" ∧ reservationID ≠ "" ∧ 0 < c.idempotencyLease) (w : World) (execute : Handler) (before after : List Event)
    (result : MessageResult)
    (hfinished : ((State.init c w execute).run c key reservationID before).main = .execute (.ret (.ok result)))
    (hallowed : (State.init c w execute).Along c key reservationID (Allowed key reservationID) (before ++ after)) :
    let s := (State.init c w execute).run c key reservationID before
    Ends c key reservationID (s.run c key reservationID after) ∧
    ∀ res w', (s.run c key reservationID after).main = .returned res w' →
      ((res = .ok result ∧ Stored key reservationID result.message w' ∧
          ∀ evs, evs <+: after → ∀ err, (s.run c key reservationID evs).main ≠ .release err) ↔
        (State.init c w execute).Along c key reservationID (Timely key reservationID) (before ++ after)) := by
  intro s
  have hinit : Ordered (State.init c w execute) := trivial
  have hclear : Clear (State.init c w execute) := by
    refine ⟨rfl, fun err => ?_⟩
    unfold State.init
    split <;> simp
  refine ⟨.of_ordered (ordered_run after (ordered_run before hinit)) (executed_run after (by simp [s, hfinished])), ?_⟩
  intro res w' hres
  constructor
  · rintro ⟨rfl, -, -⟩
    by_contra hlate
    have hspoiled := spoiled_of_not_along (before ++ after) hinit hallowed hlate
    rw [run_append, Spoiled, hres] at hspoiled
    obtain ⟨err, herr⟩ := hspoiled
    cases herr
  · intro htimely
    rw [along_append] at htimely hallowed
    have hclear' := clear_run hvalid before hclear hallowed.1 htimely.1
    have hstart : Finishing key reservationID result s := by rw [Finishing, hfinished]
    have hend := finishing_run hvalid after hclear' hstart hallowed.2 htimely.2
    rw [Finishing, hres] at hend
    refine ⟨hend.1, hend.2, fun evs hevs err herr => ?_⟩
    obtain ⟨rest, rfl⟩ := hevs
    have hthere := finishing_run hvalid evs hclear' hstart (along_append _ _ _ |>.mp hallowed.2).1
      (along_append _ _ _ |>.mp htimely.2).1
    rw [Finishing, herr] at hthere
    exact hthere

/-! ## A tick at the end of the execution -/

instance (key reservationID : String) (now : Time) (w : World) : Decidable (Lasting key reservationID now w) :=
  inferInstanceAs (Decidable (∀ d ∈ w.records.docs, releaseFilter key reservationID d = true → now < d.expiresAt))

def component : DomainAuthComponent where
  refreshTokenTTL := 3600
  idempotencyTTL := 1000
  idempotencyLease := 30
  idempotencyRenewInterval := 10
  authHashToken := id
  digest := fun _ => "digest"
  compareHashAndPassword := fun _ _ => true

def pending : IdempotencyRecord where
  key := "refresh-1"
  operation := .refreshAuthenticate
  requestHash := "digest"
  state := .pending
  reservationID := "reservation-1"
  leaseUntil := 30
  createdAt := 0
  expiresAt := 1000

def reservedWorld : World := { World.init 0 with records := ⟨[pending], List.pairwise_singleton _ _⟩ }

def refreshed : MessageResult := ⟨refreshAuthenticateResponse, .refresh ⟨"account", "token-2", 3600⟩⟩

def clockExecution : Handler := .call .now fun _ => .ret (.ok refreshed)

theorem finished_kept_renewed :
    let s := (State.init component reservedWorld clockExecution).run component "refresh-1" "reservation-1"
      [.renewal {} (some 0), .renewal {} none, .main { delay := 10 }]
    let after : List Event := [.main {}, .renewal {} none, .main {}, .main {}, .main {}, .main {}]
    ∃ w, (s.run component "refresh-1" "reservation-1" after).main = .returned (.ok refreshed) w ∧
      Stored "refresh-1" "reservation-1" refreshed.message w := by
  intro s after
  have hvalid : "refresh-1" ≠ "" ∧ "reservation-1" ≠ "" ∧ 0 < component.idempotencyLease := by decide
  have hfinished : s.main = .execute (.ret (.ok refreshed)) := rfl
  have hallowed : (State.init component reservedWorld clockExecution).Along component "refresh-1" "reservation-1"
      (Allowed "refresh-1" "reservation-1")
      ([.renewal {} (some 0), .renewal {} none, .main { delay := 10 }] ++ after) := by
    refine ⟨fun _ h => ?_, fun _ _ => ⟨⟨pending, .head _, rfl⟩, fun _ => rfl⟩, fun _ _ h => ?_, fun _ _ h => ?_, fun _ h => ?_,
      fun _ _ h => ?_, fun _ _ h => ?_, fun _ _ h => ?_, fun _ _ _ => ⟨⟨_, .head _, rfl⟩, rfl⟩, trivial⟩ <;> cases h
  have htimely : (State.init component reservedWorld clockExecution).Along component "refresh-1" "reservation-1"
      (Timely "refresh-1" "reservation-1")
      ([.renewal {} (some 0), .renewal {} none, .main { delay := 10 }] ++ after) := by
    refine ⟨fun _ h => ?_, fun now h => ⟨rfl, ?_⟩, fun _ _ h => ?_, fun _ _ h => ?_, fun _ h => ?_,
      fun _ _ h => ?_, fun _ _ h => ?_, fun _ _ h => ?_, fun _ _ h => ?_, trivial⟩
    · cases h
    · cases h
      decide +kernel
    · cases h
    · cases h
    · cases h
    · cases h
    · cases h
    · cases h
    · cases h
      decide +kernel
  have hreturned : (s.run component "refresh-1" "reservation-1" after).main = .returned (.ok refreshed) _ := rfl
  have hkept := ((finished_kept_iff component "refresh-1" "reservation-1" hvalid reservedWorld clockExecution _ after refreshed
    hfinished hallowed).2 _ _ hreturned).mpr htimely
  exact ⟨_, hreturned, hkept.2.1⟩

/-- The ticker fires when the execution is done. `Renew` is under way when
`executeReserved` cancels the context: its error is returned in place of the
new token, and the record is released. -/
theorem tick_loses_result :
    let s₀ := State.init component reservedWorld clockExecution
    let before : List Event := [.main { delay := 10 }, .renewal {} (some 0)]
    let after : List Event := [.main {}, .renewal {} none, .renewal {} none, .renewal {} none, .main {}, .main {}, .main {}]
    let s := s₀.run component "refresh-1" "reservation-1" before
    s.main = .execute (.ret (.ok refreshed)) ∧
      s₀.Along component "refresh-1" "reservation-1" (Allowed "refresh-1" "reservation-1") (before ++ after) ∧
      ∃ w, (s.run component "refresh-1" "reservation-1" after).main =
        .returned (.error (.wrap "renew idempotency lease" (.driver "context canceled"))) w ∧ w.records.docs = [] := by
  intro s₀ before after s
  refine ⟨rfl, ?_, _, rfl, rfl⟩
  refine ⟨fun _ _ h => ?_, fun _ h => ?_, fun _ _ h => ?_, fun _ _ => ⟨⟨pending, .head _, rfl⟩, fun h => ?_⟩, fun _ h => ?_,
    fun _ h => ?_, fun _ _ h => ?_, fun _ _ h => ?_, fun _ _ h => ?_, trivial⟩
  · cases h
  · cases h
  · cases h
  · cases h
  · cases h
  · cases h
  · cases h
  · cases h
  · cases h

end GameServer.UserCenter.LeaseRenewal
