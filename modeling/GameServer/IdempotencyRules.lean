import GameServer.UserCenterExec

/-!
# The user center: rules for idempotent execution

What has to be shown of the commands `withIdempotency` issues for one request,
one by one, so that the whole of it is safe: the traversal of `Reserve`, of the
wait for another's record and of the execution beside its renewals.
-/

namespace GameServer.UserCenter

/-- What a caller of `withIdempotency` can know: a time has come, a record was
read, a reservation id is its own, the record is reserved for it, the execution
ended with a result, and an answer is in order. -/
structure Facts (V : Type) where
  time : Time → V → Prop
  read : IdempotencyRecord → V → Prop
  drawn : String → V → Prop
  owned : V → Prop
  done : MessageResult → V → Prop
  fine : Except GoErr MessageResult → V → Prop

def Cmd.isTame : Cmd → Bool
  | .release _ _ | .renew _ _ _ _ | .ticks | .acquireLock _ _ | .lock _ | .unlock _ | .releaseLock _ _ _ => true
  | _ => false

section
variable {V : Type} (exec : Nat → Env → V → (cmd : Cmd) → Option (Ans cmd × V)) (G : Nat → Env → V → Cmd → Prop)
  (inv : V → Prop) (later : V → V → Prop) (i : Nat)

structure Facts.Rules (F : Facts V) (c : DomainAuthComponent) (key : String) (operation : Operation)
    (requestHash : String) : Prop where
  refl : ∀ v, later v v
  trans : ∀ u v w, later u v → later v w → later u w
  time_later : ∀ now v w, F.time now v → later v w → F.time now w
  read_later : ∀ d v w, F.read d v → later v w → F.read d w
  drawn_later : ∀ id v w, F.drawn id v → later v w → F.drawn id w
  done_later : ∀ result v w, F.done result v → later v w → F.done result w
  fine_later : ∀ r v w, F.fine r v → later v w → F.fine r w
  error : ∀ err v, F.fine (.error err) v
  replay : ∀ d v, F.read d v → d.isCompleted → F.fine (replayIdempotency d operation requestHash) v
  now : Pool.Does exec G inv (fun _ => later) i .now (fun _ => True) F.time
  newUUID : Pool.Does exec G inv (fun _ => later) i .newUUID (fun _ => True) fun r v => ∀ id, r = .ok id → F.drawn id v
  findRecord : ∀ now, Pool.Does exec G inv (fun _ => later) i (.findRecord key now) (fun _ => True)
    fun r v => ∀ d, r = .ok d → F.read d v
  insertRecord : ∀ reservationID now, Pool.Does exec G inv (fun _ => later) i
    (.insertRecord (pendingRecord c key operation requestHash reservationID now)) (F.drawn reservationID)
    fun r v => r = .ok → F.owned v
  deleteStale : ∀ now, Pool.Does exec G inv (fun _ => later) i (.deleteStale key now) (F.time now) fun _ _ => True
  claim : ∀ current reservationID now leaseUntil, current.operation = operation → current.requestHash = requestHash →
    Pool.Does exec G inv (fun _ => later) i (.claim key current.reservationID now reservationID leaseUntil)
      (fun v => F.read current v ∧ F.drawn reservationID v) fun r v => ∀ d, r = .ok (some d) → F.owned v
  complete : ∀ reservationID result now, Pool.Does exec G inv (fun _ => later) i
    (.complete key reservationID result.message now) (fun v => F.drawn reservationID v ∧ F.done result v)
    fun r v => r = .ok () → F.fine (.ok result) v
  tame : ∀ cmd : Cmd, cmd.isTame → Pool.Does exec G inv (fun _ => later) i cmd (fun _ => True) fun _ _ => True

end

theorem uses_renewals {P : Cmd → Prop} (hnow : P .now) (hticks : P .ticks)
    (hrenew : ∀ key reservationID leaseUntil now, P (.renew key reservationID leaseUntil now)) (c : DomainAuthComponent)
    (key reservationID : String) : (renewals c key reservationID).Uses P := by
  have hlease : ∀ ticks, (renewIdempotencyLease c key reservationID ticks).Uses P := by
    intro ticks
    induction ticks with
    | zero => trivial
    | succ ticks ih =>
      simp only [renewIdempotencyLease, perform, Prog.perform_bind]
      refine ⟨hnow, fun now => Prog.Uses.bind ?_ fun r => ?_⟩
      · unfold renew
        split
        · trivial
        · exact ⟨hrenew _ _ _ _, fun _ => trivial⟩
      · cases r with
        | error err => trivial
        | ok u => exact ih
  unfold renewals
  split
  · trivial
  · exact ⟨hticks, fun ticks => hlease ticks⟩

def Cmd.reserves : Cmd → Bool
  | .now | .insertRecord _ | .findRecord _ _ | .deleteStale _ _ | .claim _ _ _ _ _ => true
  | _ => false

theorem uses_contend (record : IdempotencyRecord) (now : Time) (current : IdempotencyRecord) :
    (contend record now current).Uses fun cmd => cmd.reserves = true := by
  unfold contend
  split
  · trivial
  split
  · trivial
  split
  · trivial
  refine ⟨rfl, fun r => ?_⟩
  cases r with
  | error err => trivial
  | ok o =>
    cases o with
    | some claimed => trivial
    | none =>
      refine ⟨rfl, fun r => ?_⟩
      cases r <;> trivial

theorem uses_replaceStale (record : IdempotencyRecord) (now : Time) (err : GoErr) :
    (replaceStale record now err).Uses fun cmd => cmd.reserves = true := by
  refine ⟨rfl, fun r => ?_⟩
  cases r with
  | error err => trivial
  | ok deleted =>
    cases deleted with
    | false => trivial
    | true =>
      refine ⟨rfl, fun r => ?_⟩
      cases r with
      | ok => trivial
      | failed err => trivial
      | duplicate =>
        refine ⟨rfl, fun r => ?_⟩
        cases r with
        | error err => trivial
        | ok current => exact uses_contend record now current

theorem uses_reserve (record : IdempotencyRecord) (now : Time) : (reserve record now).Uses fun cmd => cmd.reserves = true := by
  unfold reserve
  split
  · trivial
  split
  · trivial
  simp only [perform, Prog.perform_bind]
  refine ⟨rfl, fun today => ?_⟩
  dsimp only
  split
  · trivial
  refine ⟨rfl, fun r => ?_⟩
  cases r with
  | ok => trivial
  | failed err => trivial
  | duplicate =>
    refine ⟨rfl, fun r => ?_⟩
    cases r with
    | ok current => exact uses_contend record now current
    | error err =>
      dsimp only
      split
      · exact uses_replaceStale record now err
      · trivial

theorem uses_withRenewal {P : Cmd → Prop} {c : DomainAuthComponent} {key reservationID : String} {α : Type}
    {prog : Prog Ans α} (hrenewals : (renewals c key reservationID).Uses P) (hp : prog.Uses P) :
    (withRenewal c key reservationID prog).Uses P := by
  induction prog with
  | ret a => exact hrenewals.bind fun _ => trivial
  | call cmd k ih =>
    unfold withRenewal
    refine hrenewals.bind fun leaseErr => ?_
    cases leaseErr with
    | none => exact ⟨hp.1, fun r => ih r (hp.2 r)⟩
    | some err => exact ⟨hp.1, fun r => (hp.2 r).bind fun _ => trivial⟩

/-! ## Around an execution -/

structure Coordinates (c : DomainAuthComponent) (key : String) (execute : Handler) (Φ : Handler → Prop) : Prop where
  ret : ∀ r, Φ (.ret r)
  now : ∀ k : Time → Handler, (∀ t, Φ (k t)) → Φ (.call .now k)
  newUUID : ∀ k : Except GoErr String → Handler, (∀ r, Φ (k r)) → Φ (.call .newUUID k)
  findRecord : ∀ now (k : Except GoErr IdempotencyRecord → Handler), (∀ r, Φ (k r)) → Φ (.call (.findRecord key now) k)
  reserve : ∀ record now (k : Except GoErr (IdempotencyRecord × Bool) → Handler), (∀ r, Φ (k r)) →
    Φ (reserve record now >>= k)
  executeReserved : ∀ reservationID, Φ (executeReserved c key reservationID execute)

namespace Coordinates

variable {c : DomainAuthComponent} {key : String} {execute : Handler} {Φ : Handler → Prop} {operation : Operation}
  {requestHash : String} (H : Coordinates c key execute Φ)
include H

theorem poll {again : Handler} (hagain : Φ again) (now : Time) : Φ (poll key operation requestHash again now) := by
  simp only [UserCenter.poll, perform, Prog.perform_bind]
  refine H.findRecord now _ fun r => ?_
  cases r with
  | ok record =>
    dsimp only
    split
    · exact H.ret _
    · exact hagain
  | error err =>
    dsimp only
    split
    · exact hagain
    · exact H.ret _

theorem reserved {reservationID : String} {record : IdempotencyRecord} {now : Time} {wait : IdempotencyRecord → Handler}
    (hwait : ∀ d, Φ (wait d)) {k : Except GoErr (IdempotencyRecord × Bool) → Handler}
    (herror : ∀ err, k (.error err) = .ret (.error err))
    (howns : ∀ d, k (.ok (d, true)) = UserCenter.executeReserved c key reservationID execute)
    (hclaimed : ∀ d, k (.ok (d, false)) =
      if d.isCompleted then .ret (replayIdempotency d operation requestHash) else wait d) :
    Φ (UserCenter.reserve record now >>= k) := by
  refine H.reserve record now k fun r => ?_
  cases r with
  | error err => rw [herror]; exact H.ret _
  | ok claim =>
    obtain ⟨d, owns⟩ := claim
    cases owns with
    | true => rw [howns]; exact H.executeReserved reservationID
    | false =>
      rw [hclaimed]
      split
      · exact H.ret _
      · exact hwait d

theorem waitRound {again : Time → Handler} (hagain : ∀ t, Φ (again t)) (deadline : Time) :
    Φ (waitRound c key operation requestHash execute again deadline) := by
  simp only [UserCenter.waitRound, perform, Prog.perform_bind]
  refine H.now _ fun now => ?_
  split
  · refine H.newUUID _ fun r => ?_
    cases r with
    | error err => exact H.ret _
    | ok reservationID =>
      exact H.reserved (fun d => H.poll (hagain d.leaseUntil) now) (fun _ => rfl) (fun _ => rfl) fun _ => rfl
  · exact H.poll (hagain deadline) now

theorem waitForIdempotency (polls : Nat) (deadline : Time) :
    Φ (waitForIdempotency c key operation requestHash execute polls deadline) := by
  induction polls generalizing deadline with
  | zero => exact H.waitRound (fun _ => H.ret _) deadline
  | succ polls ih => exact H.waitRound ih deadline

theorem coordinate (polls : Nat) : Φ (coordinate c key operation requestHash execute polls) := by
  simp only [UserCenter.coordinate, perform, Prog.perform_bind]
  refine H.now _ fun now => H.findRecord now _ fun r => ?_
  cases r with
  | ok record =>
    dsimp only
    split
    · exact H.ret _
    split
    · exact H.ret _
    · exact H.waitForIdempotency polls _
  | error err =>
    dsimp only
    split
    · exact H.ret _
    refine H.newUUID _ fun r => ?_
    cases r with
    | error err => exact H.ret _
    | ok reservationID =>
      exact H.reserved (fun _ => H.waitForIdempotency polls _) (fun _ => rfl) (fun _ => rfl) fun _ => rfl

end Coordinates

namespace Facts.Rules

variable {V : Type} {exec : Nat → Env → V → (cmd : Cmd) → Option (Ans cmd × V)} {G : Nat → Env → V → Cmd → Prop}
  {inv : V → Prop} {later : V → V → Prop} {i : Nat} {F : Facts V} {c : DomainAuthComponent} {key : String}
  {operation : Operation} {requestHash : String} {α : Type} {post : V → α → Prop} {v : V}

section
variable (R : F.Rules exec G inv later i c key operation requestHash)
include R

theorem call {cmd : Cmd} {gives : Ans cmd → V → Prop} {k : Ans cmd → Prog Ans α}
    (h : Pool.Does exec G inv (fun _ => later) i cmd (fun _ => True) gives)
    (hk : ∀ r w, later v w → gives r w → Pool.Safe exec G inv (fun _ => later) i post (k r) w) :
    Pool.Safe exec G inv (fun _ => later) i post (.call cmd k) v :=
  h.call R.trans (fun _ _ _ _ => trivial) trivial hk

/-! ## Reserve -/

def Reserved (F : Facts V) (v : V) (r : Except GoErr (IdempotencyRecord × Bool)) : Prop :=
  ∀ d owns, r = .ok (d, owns) → if owns then F.owned v else F.read d v

theorem contend {current : IdempotencyRecord} {reservationID : String} {now : Time} (hread : F.read current v)
    (hdrawn : F.drawn reservationID v) :
    Pool.Safe exec G inv (fun _ => later) i (Reserved F)
      (contend (pendingRecord c key operation requestHash reservationID now) now current) v := by
  unfold UserCenter.contend
  split
  · intro _ _ h
    cases h
  rename_i hsame
  obtain ⟨hoperation, hhash⟩ := not_or.mp hsame
  split
  · intro d owns h
    cases h
    exact hread
  split
  · intro d owns h
    cases h
    exact hread
  simp only [perform, Prog.perform_bind, Prog.pure_eq]
  refine (R.claim current reservationID now _ (not_not.mp hoperation) (not_not.mp hhash)).call R.trans
    (fun u w h hl => ⟨R.read_later _ u w h.1 hl, R.drawn_later _ u w h.2 hl⟩) ⟨hread, hdrawn⟩ fun r w _ howned => ?_
  cases r with
  | error err =>
    intro _ _ h
    cases h
  | ok o =>
    cases o with
    | some claimed =>
      intro d owns h
      cases h
      exact howned claimed rfl
    | none =>
      refine R.call (R.findRecord now) fun r w _ hr => ?_
      cases r with
      | error err =>
        intro _ _ h
        cases h
      | ok latest =>
        intro d owns h
        cases h
        exact hr latest rfl

theorem replaceStale {reservationID : String} {now : Time} {err : GoErr} (htime : F.time now v)
    (hdrawn : F.drawn reservationID v) :
    Pool.Safe exec G inv (fun _ => later) i (Reserved F)
      (replaceStale (pendingRecord c key operation requestHash reservationID now) now err) v := by
  unfold UserCenter.replaceStale
  simp only [perform, Prog.perform_bind]
  refine (R.deleteStale now).call R.trans (R.time_later now) htime fun r w hw _ => ?_
  have hdrawn := R.drawn_later _ v w hdrawn hw
  cases r with
  | error err =>
    intro _ _ h
    cases h
  | ok deleted =>
    cases deleted with
    | false =>
      intro _ _ h
      cases h
    | true =>
      refine (R.insertRecord reservationID now).call R.trans (R.drawn_later _) hdrawn fun r w hw howned => ?_
      have hdrawn := R.drawn_later _ _ w hdrawn hw
      cases r with
      | ok =>
        intro d owns h
        cases h
        exact howned rfl
      | failed err =>
        intro _ _ h
        cases h
      | duplicate =>
        refine R.call (R.findRecord now) fun r w hw hr => ?_
        cases r with
        | error err =>
          intro _ _ h
          cases h
        | ok current => exact R.contend (hr current rfl) (R.drawn_later _ _ w hdrawn hw)

theorem reserve {reservationID : String} {now : Time} (htime : F.time now v) (hdrawn : F.drawn reservationID v) :
    Pool.Safe exec G inv (fun _ => later) i (Reserved F)
      (reserve (pendingRecord c key operation requestHash reservationID now) now) v := by
  unfold UserCenter.reserve
  split
  · intro _ _ h
    cases h
  split
  · intro _ _ h
    cases h
  simp only [perform, Prog.perform_bind, Prog.pure_eq]
  refine R.call R.now fun today w hw _ => ?_
  have htime := R.time_later _ v w htime hw
  have hdrawn := R.drawn_later _ v w hdrawn hw
  split
  · intro _ _ h
    cases h
  refine (R.insertRecord reservationID now).call R.trans (R.drawn_later _) hdrawn fun r w hw howned => ?_
  have htime := R.time_later _ _ w htime hw
  have hdrawn := R.drawn_later _ _ w hdrawn hw
  cases r with
  | ok =>
    intro d owns h
    cases h
    exact howned rfl
  | failed err =>
    intro _ _ h
    cases h
  | duplicate =>
    refine R.call (R.findRecord now) fun r w hw hr => ?_
    have hdrawn := R.drawn_later _ _ w hdrawn hw
    cases r with
    | ok current => exact R.contend (hr current rfl) hdrawn
    | error err =>
      dsimp only
      split
      · exact R.replaceStale (R.time_later _ _ w htime hw) hdrawn
      · intro _ _ h
        cases h

/-! ## The execution beside its renewals -/

theorem renewals (reservationID : String) :
    Pool.Safe exec G inv (fun _ => later) i (fun w _ => later v w) (renewals c key reservationID) v := by
  have huses : (UserCenter.renewals c key reservationID).Uses fun cmd => cmd = .now ∨ cmd.isTame :=
    uses_renewals (.inl rfl) (.inr rfl) (fun _ _ _ _ => .inr rfl) c key reservationID
  refine Pool.Safe.of_uses (fun _ _ => R.trans _ _ _) (fun e w cmd r w' hcmd hi hw hg hx => ?_) huses (R.refl v)
  rcases hcmd with rfl | htame
  · obtain ⟨hi', hrely, -⟩ := R.now e w r w' hi trivial hg hx
    exact ⟨hi', fun j _ => hrely j, R.trans _ _ _ hw (hrely i)⟩
  · obtain ⟨hi', hrely, -⟩ := R.tame cmd htame e w r w' hi trivial hg hx
    exact ⟨hi', fun j _ => hrely j, R.trans _ _ _ hw (hrely i)⟩

theorem withRenewal {reservationID : String} (hpost : ∀ a v w, post v a → later v w → post w a)
    {prog : Prog Ans α} (h : Pool.Safe exec G inv (fun _ => later) i post prog v) :
    Pool.Safe exec G inv (fun _ => later) i (fun w r => post w r.1) (withRenewal c key reservationID prog) v := by
  induction prog generalizing v with
  | ret a => exact Pool.Safe.bind ((R.renewals reservationID).mono fun w _ hw => hpost a v w h hw)
  | call cmd k ih =>
    unfold UserCenter.withRenewal
    refine Pool.Safe.bind ((R.renewals reservationID).mono fun w leaseErr hw => ?_)
    have h := h.rely_left (fun _ => R.trans) hw
    cases leaseErr with
    | none =>
      intro e w₁ r w₂ hr hi hg hx
      obtain ⟨hi', hrely, hk⟩ := h e w₁ r w₂ hr hi hg hx
      exact ⟨hi', hrely, ih r hk⟩
    | some err =>
      show Pool.Safe exec G inv (fun _ => later) i _ (Prog.call cmd k >>= fun a => .ret (a, some err)) w
      exact Pool.Safe.bind (h.mono fun w a ha => ha)

theorem executeReserved {reservationID : String} {execute : Handler}
    (hexecute : Pool.Safe exec G inv (fun _ => later) i (fun w r => ∀ result, r = .ok result → F.done result w) execute v)
    (hdrawn : F.drawn reservationID v) :
    Pool.Safe exec G inv (fun _ => later) i (fun w r => F.fine r w) (executeReserved c key reservationID execute) v := by
  have hdone : ∀ (r : Except GoErr MessageResult) u w, (∀ result, r = .ok result → F.done result u) → later u w →
      ∀ result, r = .ok result → F.done result w := fun r u w h hw result hr => R.done_later _ u w (h result hr) hw
  refine Pool.Safe.bind (((R.withRenewal hdone hexecute).later R.refl R.trans).mono fun w r hr => ?_)
  obtain ⟨result, leaseErr⟩ := r
  cases result with
  | error err => exact R.call (R.tame _ rfl) fun _ w _ _ => R.error err w
  | ok result =>
    cases leaseErr with
    | some err => exact R.call (R.tame _ rfl) fun _ w _ _ => R.error err w
    | none =>
      refine R.call R.now fun now u hu _ => ?_
      have hstored : F.drawn reservationID u ∧ F.done result u :=
        ⟨R.drawn_later _ _ u hdrawn (R.trans _ _ _ hr.1 hu), R.done_later _ _ u (hr.2 result rfl) hu⟩
      refine (R.complete reservationID result now).call R.trans
        (fun u w h hw => ⟨R.drawn_later _ u w h.1 hw, R.done_later _ u w h.2 hw⟩) hstored fun r w _ hr => ?_
      cases r with
      | error err => exact R.error err w
      | ok u => exact hr rfl

/-! ## Waiting for another -/

section
variable {execute : Handler}
  (hexecute : ∀ v, F.owned v →
    Pool.Safe exec G inv (fun _ => later) i (fun w r => ∀ result, r = .ok result → F.done result w) execute v)

theorem poll {again : Handler} {now : Time}
    (hagain : ∀ v, Pool.Safe exec G inv (fun _ => later) i (fun w r => F.fine r w) again v) :
    Pool.Safe exec G inv (fun _ => later) i (fun w r => F.fine r w) (poll key operation requestHash again now) v := by
  simp only [UserCenter.poll, perform, Prog.perform_bind]
  refine R.call (R.findRecord now) fun r w _ hr => ?_
  cases r with
  | ok record =>
    dsimp only
    split
    · rename_i hc
      exact R.replay record w (hr record rfl) hc
    · exact hagain w
  | error err =>
    dsimp only
    split
    · exact hagain w
    · exact R.error err w

include hexecute

theorem reserved {reservationID : String} {now : Time} {wait : IdempotencyRecord → Handler} (htime : F.time now v)
    (hdrawn : F.drawn reservationID v)
    (hwait : ∀ d v, Pool.Safe exec G inv (fun _ => later) i (fun w r => F.fine r w) (wait d) v)
    {k : Except GoErr (IdempotencyRecord × Bool) → Handler} (herror : ∀ err, k (.error err) = .ret (.error err))
    (howns : ∀ d, k (.ok (d, true)) = UserCenter.executeReserved c key reservationID execute)
    (hclaimed : ∀ d, k (.ok (d, false)) =
      if d.isCompleted then .ret (replayIdempotency d operation requestHash) else wait d) :
    Pool.Safe exec G inv (fun _ => later) i (fun w r => F.fine r w)
      (UserCenter.reserve (pendingRecord c key operation requestHash reservationID now) now >>= k) v := by
  refine Pool.Safe.bind (((R.reserve htime hdrawn).later R.refl R.trans).mono fun w r hr => ?_)
  cases r with
  | error err => rw [herror]; exact R.error err w
  | ok claim =>
    obtain ⟨d, owns⟩ := claim
    cases owns with
    | true => rw [howns]; exact R.executeReserved (hexecute w (hr.2 d true rfl)) (R.drawn_later _ v w hdrawn hr.1)
    | false =>
      rw [hclaimed]
      split
      · rename_i hc
        exact R.replay d w (hr.2 d false rfl) hc
      · exact hwait d w

theorem waitRound {again : Time → Handler} {deadline : Time}
    (hagain : ∀ t v, Pool.Safe exec G inv (fun _ => later) i (fun w r => F.fine r w) (again t) v) :
    Pool.Safe exec G inv (fun _ => later) i (fun w r => F.fine r w)
      (waitRound c key operation requestHash execute again deadline) v := by
  simp only [UserCenter.waitRound, perform, Prog.perform_bind]
  refine R.call R.now fun now w _ htime => ?_
  split
  · refine R.call R.newUUID fun r u hu hr => ?_
    cases r with
    | error err => exact R.error err u
    | ok reservationID =>
      exact R.reserved hexecute (R.time_later _ w u htime hu) (hr reservationID rfl)
        (fun d v => R.poll fun v => hagain d.leaseUntil v) (fun _ => rfl) (fun _ => rfl) fun _ => rfl
  · exact R.poll fun v => hagain deadline v

theorem waitForIdempotency (polls : Nat) (deadline : Time) (v : V) :
    Pool.Safe exec G inv (fun _ => later) i (fun w r => F.fine r w)
      (waitForIdempotency c key operation requestHash execute polls deadline) v := by
  induction polls generalizing deadline v with
  | zero => exact R.waitRound hexecute fun _ v => R.error _ v
  | succ polls ih => exact R.waitRound hexecute ih

theorem coordinate (polls : Nat) :
    Pool.Safe exec G inv (fun _ => later) i (fun w r => F.fine r w)
      (coordinate c key operation requestHash execute polls) v := by
  simp only [UserCenter.coordinate, perform, Prog.perform_bind]
  refine R.call R.now fun now w _ htime => ?_
  refine R.call (R.findRecord now) fun r u hu hr => ?_
  cases r with
  | ok record =>
    dsimp only
    split
    · rename_i hc
      exact R.replay record u (hr record rfl) hc
    split
    · exact R.error _ u
    · exact R.waitForIdempotency hexecute polls _ u
  | error err =>
    dsimp only
    split
    · exact R.error _ u
    refine R.call R.newUUID fun r w' hw' hr => ?_
    cases r with
    | error err => exact R.error _ w'
    | ok reservationID =>
      exact R.reserved hexecute (R.time_later _ w w' htime (R.trans _ _ _ hu hw')) (hr reservationID rfl)
        (fun _ v => R.waitForIdempotency hexecute polls _ v) (fun _ => rfl) (fun _ => rfl) fun _ => rfl

end

end

theorem withIdempotency {site : Site} {key : String} {request : Request} {execute : Handler} (hkey : trimSpace key ≠ "")
    (R : F.Rules exec G inv later i c (trimSpace key) operation (c.digest (clearIdempotencyKey request)))
    (hexecute : ∀ v, F.owned v →
      Pool.Safe exec G inv (fun _ => later) i (fun w r => ∀ result, r = .ok result → F.done result w) execute v) :
    Pool.Safe exec G inv (fun _ => later) i (fun w r => F.fine r w)
      (withIdempotency c site key operation request execute) v := by
  unfold UserCenter.withIdempotency
  simp only [if_neg hkey, perform, Prog.perform_bind]
  refine R.call (R.tame _ rfl) fun entry w _ _ => R.call (R.tame _ rfl) fun _ w _ _ => ?_
  refine Pool.Safe.bind ((R.coordinate hexecute site.polls).mono fun w r hfine => ?_)
  -- the answer stands while the lock is given back
  refine R.call (R.tame _ rfl) fun _ u hu _ => R.call (R.tame _ rfl) fun _ u' hu' _ => ?_
  exact R.fine_later r w u' hfine (R.trans _ _ _ hu hu')

end Facts.Rules

end GameServer.UserCenter
