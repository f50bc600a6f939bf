import GameServer.CrashSound
import GameServer.Total
import Mathlib.Data.Fintype.EquivFin

/-!
# The user center: sending an interrupted request again

A keyed request has written to the tokens and its process has stopped before the
record was completed. The lease runs out, and the same request is sent to a
process that has not seen the key. A healthy store lets the retry take over the
record and execute again. A login then finds the identity it has created and
issues one more token; a refresh or a revoke does not find the token that it has
used up, so it fails, and releases the record.
-/

namespace GameServer.UserCenter

structure DomainAuthComponent.Lawful (c : DomainAuthComponent) : Prop where
  injective : Function.Injective c.authHashToken
  hash : ∀ raw, raw ≠ "" → c.authHashToken raw ≠ ""
  digest : ∀ request, c.digest request ≠ ""
  lease : 0 < c.idempotencyLease

def Healthy (T : Time) (e : Env) (w : World) : Prop := e.fail = none ∧ w.clock + e.delay < T

/-- A retry at `site` meets a record whose lease has run out, if any. Before `T`
no record under the key comes to its end, nor would one that is made now, or a
token. -/
structure Lapsed (c : DomainAuthComponent) (site : Site) (key : String) (T : Time) (w : World) : Prop where
  unlocked : w.locks.table.lookup (site.process, key) = none
  lapsed : ∀ d ∈ w.records, d.key = key → d.isCompleted = false ∧ d.leaseUntil < w.clock
  lasts : ∀ d ∈ w.records, d.key = key → T ≤ d.expiresAt ∨ d.expiresAt ≤ w.clock
  starts : w.clock < T
  record : T ≤ w.clock + c.idempotencyTTL
  token : T ≤ w.clock + c.refreshTokenTTL

def Completed (key : String) (w : World) : Prop := ∃ d ∈ w.records, d.key = key ∧ d.isCompleted = true

def Recovers (c : DomainAuthComponent) (T : Time) (key : String) (i : Nat) (s : State) : Prop :=
  Pool.Ends (exec c) (Healthy T) i (fun w r => (∃ res, r = some (.ok res)) ∧ Completed key w) s

def Request.isLogin : Request → Bool
  | .guest _ | .password _ | .clientLogin _ => true
  | .refresh _ | .revoke _ | .clientRefresh _ => false

attribute [local irreducible] trimSpace

namespace Recovery

variable {c : DomainAuthComponent} {i : Nat} {e : Env} {w w' : World} {cmd : Cmd} {key : String} {operation : Operation}
  {requestHash : String} {t₀ T : Time} {request : Request}

/-! ## What is known during the retry -/

section
variable (c t₀ T request)

structure Fit (w : World) : Prop where
  start : t₀ ≤ w.clock
  before : w.clock < T
  sane : Sane c w
  executed : Executed c request w

end

section
variable (key operation requestHash t₀ T)

def Free (w : World) : Prop :=
  ∀ d ∈ w.records, d.key = key → d.operation = operation ∧ d.requestHash = requestHash ∧ d.isCompleted = false ∧
    d.leaseUntil < t₀ ∧ (T ≤ d.expiresAt ∨ d.expiresAt ≤ t₀)

end

def Owned (key reservationID : String) (T : Time) (w : World) : Prop :=
  ∃ d ∈ w.records, d.key = key ∧ d.state = .pending ∧ d.reservationID = reservationID ∧ T ≤ d.expiresAt

structure Renewed (T : Time) (w w' : World) : Prop where
  same : w' = { w with records := w'.records, clock := w'.clock }
  later : w.clock ≤ w'.clock
  before : w.clock < T → w'.clock < T

theorem Fit.of_same (h : Fit c t₀ T request w) (hclock : w.clock ≤ w'.clock) (hT : w'.clock < T) (ht : w'.tokens = w.tokens)
    (hd : w'.identities = w.identities) (hdrawn : ∀ x ∈ w.drawn, x ∈ w'.drawn) : Fit c t₀ T request w' :=
  ⟨Nat.le_trans h.start hclock, hT, Crash.sane_of_tokens h.sane ht hdrawn,
    Crash.lasts_executed request w w' (fun _ h => hd ▸ h) (fun _ h => ht ▸ h) h.executed⟩

theorem Fit.renewed (h : Fit c t₀ T request w) (hr : Renewed T w w') : Fit c t₀ T request w' := by
  have hsame := hr.same
  refine h.of_same hr.later (hr.before h.before) ?_ ?_ ?_
  · rw [hsame]
  · rw [hsame]
  · rw [hsame]
    exact fun _ h => h

theorem Fit.quiet (h : Fit c t₀ T request w) {delay : Nat} (hT : w.clock + delay < T) (hc : cmd.sparesAuth) {r : Ans cmd}
    (hx : (w.tick delay).answer c i cmd e = some (r, w')) : Fit c t₀ T request w' := by
  have hsame := answer_sparesAuth hc hx
  refine h.of_same ?_ ?_ ?_ ?_ ?_ <;> rw [hsame]
  · exact Nat.le_add_right ..
  · exact hT
  · rfl
  · rfl
  · exact fun _ h => h

theorem Fit.draw (h : Fit c t₀ T request w) {delay : Nat} (hT : w.clock + delay < T) {id : String} {r : Except GoErr String}
    (hx : (w.tick delay).draw i id = some (r, w')) : Fit c t₀ T request w' := by
  obtain ⟨-, -, -, rfl⟩ := draw_cases hx
  exact h.of_same (Nat.le_add_right ..) hT rfl rfl fun _ h => List.mem_cons_of_mem _ h

theorem Free.same (h : Free key operation requestHash t₀ T w) (hr : w'.records = w.records) :
    Free key operation requestHash t₀ T w' := fun d hd => h d (hr ▸ hd)

/-! ## Commands -/

section
variable {α : Type} {rely : World → World → Prop} {post : World → α → Prop}

abbrev Total (c : DomainAuthComponent) (T : Time) (rely : World → World → Prop) (i : Nat) (post : World → α → Prop)
    (prog : Prog Ans α) (w : World) : Prop :=
  Pool.Total (exec c) (Healthy T) rely i post prog w

theorem total_call {P : World → Prop} {k : Ans cmd → Prog Ans α} (hrely : ∀ w₁, rely w w₁ → P w₁)
    (hT : ∀ w₁, P w₁ → w₁.clock < T)
    (hcan : ∀ w₁, P w₁ → ∃ e r w', e.fail = none ∧ e.delay = 0 ∧ w₁.answer c i cmd e = some (r, w'))
    (hk : ∀ w₁ e r w', P w₁ → w₁.clock + e.delay < T → (w₁.tick e.delay).answer c i cmd e = some (r, w') →
      Total c T rely i post (k r) w') : Total c T rely i post (.call cmd k) w := by
  intro w₁ hw₁
  have hP := hrely w₁ hw₁
  refine ⟨?_, fun e r w₂ he hx => ?_⟩
  · obtain ⟨e, r, w₂, hfail, hdelay, hx⟩ := hcan w₁ hP
    refine ⟨e, r, w₂, ⟨hfail, by rw [hdelay]; exact hT w₁ hP⟩, ?_⟩
    simp only [exec, hfail, hdelay]
    exact hx
  · simp only [exec, he.1] at hx
    exact hk w₁ e r w₂ hP he.2 hx

theorem alone_call {k : Ans cmd → Prog Ans α} (hT : w.clock < T)
    (hcan : ∃ e r w', e.fail = none ∧ e.delay = 0 ∧ w.answer c i cmd e = some (r, w'))
    (hk : ∀ e r w', w.clock + e.delay < T → (w.tick e.delay).answer c i cmd e = some (r, w') →
      Total c T Eq i post (k r) w') : Total c T Eq i post (.call cmd k) w := by
  refine total_call (P := fun w₁ => w₁ = w) (fun _ h => h.symm) ?_ ?_ ?_
  · intro w₁ h
    rwa [h]
  · intro w₁ h
    rwa [h]
  · intro w₁ e r w' h hT' hx
    subst h
    exact hk e r w' hT' hx

theorem alone_now {k : Time → Prog Ans α} (hfit : Fit c t₀ T request w)
    (hk : ∀ w', Fit c t₀ T request w' → w'.records = w.records → w'.locks = w.locks → Total c T Eq i post (k w'.clock) w') :
    Total c T Eq i post (.call .now k) w := by
  refine alone_call hfit.before ⟨{}, _, _, rfl, rfl, rfl⟩ fun e r w' hT hx => ?_
  have hfit' := hfit.quiet hT rfl hx
  cases hx
  exact hk _ hfit' rfl rfl

theorem draw_fresh (w : World) (i : Nat) : ∃ e : Env, ∃ r w', e.fail = none ∧ e.delay = 0 ∧ w.draw i e.id = some (r, w') := by
  obtain ⟨id, hid⟩ := Infinite.exists_notMem_finset ("" :: w.drawn.map (·.2)).toFinset
  simp only [List.mem_toFinset, List.mem_cons, List.mem_map, not_or, not_exists, not_and] at hid
  exact ⟨{ id }, _, _, rfl, rfl, if_pos ⟨hid.1, fun x hx => hid.2 x hx⟩⟩

theorem alone_newUUID {k : Except GoErr String → Prog Ans α} (hfit : Fit c t₀ T request w)
    (hk : ∀ w' id, Fit c t₀ T request w' → w'.records = w.records → id ≠ "" → Total c T Eq i post (k (.ok id)) w') :
    Total c T Eq i post (.call .newUUID k) w := by
  refine alone_call hfit.before (draw_fresh w i) fun e r w' hT hx => ?_
  have hfit' := hfit.draw hT hx
  obtain ⟨rfl, hid, -, rfl⟩ := draw_cases hx
  exact hk _ _ hfit' rfl hid

end

/-! ## Records -/

theorem find_pinned {p : IdempotencyRecord → Bool} (hp : Coll.Pins idempotencyIndexes p) {d : IdempotencyRecord}
    (hd : d ∈ w.records) (hf : p d = true) : w.records.findOne p = some d :=
  Coll.findOne_eq_some hd hf fun x _ hx => hp d x hf hx

theorem ownedFilter_of_owned {reservationID : String} {now : Time} (h : Owned key reservationID T w) (hnow : now < T) :
    ∃ d, w.records.findOne (ownedFilter key reservationID now) = some d ∧ d.key = key ∧ d.state = .pending ∧
      d.reservationID = reservationID ∧ T ≤ d.expiresAt := by
  obtain ⟨d, hd, hkey, hstate, hid, hT⟩ := h
  refine ⟨d, find_pinned (ownedFilter_pins key reservationID now) hd ?_, hkey, hstate, hid, hT⟩
  simp [ownedFilter, hkey, hstate, hid, Nat.lt_of_lt_of_le hnow hT]

theorem renew_owned {reservationID : String} {now : Time} (leaseUntil : Time) (h : Owned key reservationID T w)
    (hnow : now < T) :
    ∃ w', w.renew key reservationID leaseUntil now = .ok w' ∧ w' = { w with records := w'.records } ∧
      Owned key reservationID T w' := by
  obtain ⟨d, hfind, hkey, hstate, hid, hT⟩ := ownedFilter_of_owned h hnow
  have hmem := Coll.mem_updateOne_of_findOne (ownedFilter_pins key reservationID now) (renewedUntil_keepsKeys leaseUntil) hfind
  refine ⟨{ w with records := w.records.updateOne _ _ (renewedUntil_keepsKeys leaseUntil) }, ?_, rfl,
    d.renewedUntil leaseUntil, (hmem _).mpr (.inr rfl), hkey, hstate, hid, hT⟩
  simp only [World.renew, hfind]

theorem complete_owned {reservationID : String} {now : Time} (response : Message) (h : Owned key reservationID T w)
    (hnow : now < T) : ∃ w', w.complete key reservationID response now = .ok w' ∧ Completed key w' := by
  obtain ⟨d, hfind, hkey, -, -, -⟩ := ownedFilter_of_owned h hnow
  have hmem := Coll.mem_updateOne_of_findOne (ownedFilter_pins key reservationID now) (completedWith_keepsKeys response) hfind
  refine ⟨{ w with records := w.records.updateOne _ _ (completedWith_keepsKeys response) }, ?_,
    d.completedWith response, (hmem _).mpr (.inr rfl), hkey, rfl⟩
  simp only [World.complete, hfind]

theorem findRecord_cases (w : World) (hkey : key ≠ "") (now : Time) :
    (∃ d, w.findRecord key now = .ok d) ∨
      w.findRecord key now = .error errIdempotencyNotFound ∧ ∀ d ∈ w.records, d.key = key → d.expiresAt ≤ now := by
  unfold World.findRecord
  rw [if_neg hkey]
  cases hfind : w.records.findOne fun r => r.key == key && decide (now < r.expiresAt) with
  | some d => exact .inl ⟨d, rfl⟩
  | none =>
    refine .inr ⟨rfl, fun d hd hdkey => ?_⟩
    have hno := Coll.findOne_eq_none.mp hfind d hd
    simpa [hdkey] using hno

theorem claim_pending (newID : String) (leaseUntil : Time) {d : IdempotencyRecord} {now : Time} (hd : d ∈ w.records) (hkey : d.key = key)
    (hstate : d.state = .pending) (hlease : d.leaseUntil ≤ now) :
    ∃ w', w.claim key d.reservationID now newID leaseUntil = (some (d.claimedBy newID leaseUntil), w') ∧
      d.claimedBy newID leaseUntil ∈ w'.records := by
  have hpins := claimFilter_pins key d.reservationID now
  have hfind : w.records.findOne (claimFilter key d.reservationID now) = some d :=
    find_pinned hpins hd (by simp [claimFilter, hkey, hstate, hlease])
  have hmem := Coll.mem_updateOne_of_findOne hpins (claimedBy_keepsKeys newID leaseUntil) hfind
  refine ⟨{ w with records := w.records.updateOne _ _ (claimedBy_keepsKeys newID leaseUntil) }, ?_, (hmem _).mpr (.inr rfl)⟩
  simp only [World.claim, hfind]

theorem staleFilter_pins (key : String) (now : Time) : Coll.Pins idempotencyIndexes (staleFilter key now) := by
  intro a b ha hb
  simp only [staleFilter, Bool.and_eq_true, beq_iff_eq] at ha hb
  simp [idempotencyIndexes, ha.1, hb.1]

theorem pending_of_not_completed {d : IdempotencyRecord} (h : d.isCompleted = false) : d.state = .pending := by
  cases hstate : d.state with
  | pending => rfl
  | completed => simp [IdempotencyRecord.isCompleted, hstate] at h

/-! ## The record is taken over -/

section
variable (hc : c.Lawful) (hkey : key ≠ "") (hhash : requestHash ≠ "") (hrecord : T ≤ t₀ + c.idempotencyTTL)

def Reserved (c : DomainAuthComponent) (t₀ T : Time) (request : Request) (key reservationID : String) (w : World)
    (r : Except GoErr (IdempotencyRecord × Bool)) : Prop :=
  (∃ d, r = .ok (d, true)) ∧ Fit c t₀ T request w ∧ Owned key reservationID T w

theorem total_contend {reservationID : String} {now : Time} {d : IdempotencyRecord} (hfit : Fit c t₀ T request w)
    (hfree : Free key operation requestHash t₀ T w) (hnow : t₀ ≤ now) (hd : d ∈ w.records) (hdkey : d.key = key)
    (hvisible : now < d.expiresAt) :
    Total c T Eq i (Reserved c t₀ T request key reservationID)
      (contend (pendingRecord c key operation requestHash reservationID now) now d) w := by
  obtain ⟨hoperation, hdhash, hopen, hlease, hexpires⟩ := hfree d hd hdkey
  have hlease' : d.leaseUntil ≤ now := Nat.le_trans (Nat.le_of_lt hlease) hnow
  unfold contend
  simp only [pendingRecord, hoperation, hdhash, hopen, ne_eq, not_true_eq_false, or_self, if_false, Bool.false_eq_true,
    Nat.not_lt.mpr hlease', perform, Prog.perform_bind]
  refine alone_call hfit.before ⟨{}, _, _, rfl, rfl, rfl⟩ fun e r w' hT hx => ?_
  have hfit' := hfit.quiet hT rfl hx
  obtain ⟨w₁, hclaim, hmem⟩ := claim_pending (w := w.tick e.delay) reservationID (now + c.idempotencyLease) hd hdkey
    (pending_of_not_completed hopen) hlease'
  simp only [World.answer, hclaim] at hx
  cases hx
  exact ⟨⟨_, rfl⟩, hfit', _, hmem, hdkey, pending_of_not_completed hopen, rfl,
    hexpires.resolve_right fun h => absurd hvisible (Nat.not_lt.mpr (Nat.le_trans h hnow))⟩

theorem alone_insertRecord {α : Type} {post : World → α → Prop} {d : IdempotencyRecord} {k : Inserted → Prog Ans α}
    (hfit : Fit c t₀ T request w) (hok : ∀ w', Fit c t₀ T request w' → d ∈ w'.records → Total c T Eq i post (k .ok) w')
    (hduplicate : ∀ w', Fit c t₀ T request w' → w'.records = w.records → (∃ x ∈ w.records, x.key = d.key) →
      Total c T Eq i post (k .duplicate) w') : Total c T Eq i post (.call (.insertRecord d) k) w := by
  refine alone_call hfit.before ?_ fun e r w' hT hx => ?_
  · cases hins : w.records.insertOne d with
    | some records => exact ⟨{}, .ok, { w with records }, rfl, rfl, by simp only [World.answer, hins]⟩
    | none => exact ⟨{}, .duplicate, w, rfl, rfl, by simp only [World.answer, hins]⟩
  have hfit' := hfit.quiet hT rfl hx
  cases hins : w.records.insertOne d with
  | some records =>
    simp only [World.answer, World.tick, hins] at hx
    cases hx
    exact hok _ hfit' ((Coll.mem_insertOne hins d).mpr (.inl rfl))
  | none =>
    simp only [World.answer, World.tick, hins] at hx
    cases hx
    obtain ⟨x, hx, hclash⟩ := Coll.insertOne_eq_none hins
    have hxkey : d.key = x.key := by simpa [idempotencyIndexes, Index.on] using hclash
    exact hduplicate _ hfit' rfl ⟨x, hx, hxkey.symm⟩

include hkey in
theorem alone_findRecord {α : Type} {post : World → α → Prop} {now : Time} {k : Except GoErr IdempotencyRecord → Prog Ans α}
    (hfit : Fit c t₀ T request w)
    (hok : ∀ w' d, Fit c t₀ T request w' → w'.records = w.records → d ∈ w'.records → d.key = key → now < d.expiresAt →
      Total c T Eq i post (k (.ok d)) w')
    (hnone : ∀ w', Fit c t₀ T request w' → w'.records = w.records → (∀ d ∈ w'.records, d.key = key → d.expiresAt ≤ now) →
      Total c T Eq i post (k (.error errIdempotencyNotFound)) w') :
    Total c T Eq i post (.call (.findRecord key now) k) w := by
  refine alone_call hfit.before ⟨{}, _, _, rfl, rfl, rfl⟩ fun e r w' hT hx => ?_
  have hfit' := hfit.quiet hT rfl hx
  cases hx
  rcases findRecord_cases (w.tick e.delay) hkey now with ⟨d, hfind⟩ | ⟨hfind, hgone⟩
  · obtain ⟨hd, hdkey, hvisible⟩ := findRecord_ok hfind
    rw [hfind]
    exact hok _ d hfit' rfl hd hdkey hvisible
  · rw [hfind]
    exact hnone _ hfit' rfl hgone

section
include hrecord

theorem reserved_pendingRecord {reservationID : String} {now : Time} (hfit : Fit c t₀ T request w) (hnow : t₀ ≤ now)
    (hmem : pendingRecord c key operation requestHash reservationID now ∈ w.records) :
    Reserved c t₀ T request key reservationID w (.ok (pendingRecord c key operation requestHash reservationID now, true)) :=
  ⟨⟨_, rfl⟩, hfit, _, hmem, rfl, rfl, rfl, Nat.le_trans hrecord (Nat.add_le_add_right hnow _)⟩

theorem total_replaceStale {reservationID : String} {now : Time} {err : GoErr} (hfit : Fit c t₀ T request w) (hnow : t₀ ≤ now)
    (hmem : ∃ d ∈ w.records, d.key = key) (hgone : ∀ d ∈ w.records, d.key = key → d.expiresAt ≤ now) :
    Total c T Eq i (Reserved c t₀ T request key reservationID)
      (replaceStale (pendingRecord c key operation requestHash reservationID now) now err) w := by
  have hstale : ∀ d ∈ w.records, d.key = key → staleFilter key now d = true := fun d hd h => by
    simp [staleFilter, h, hgone d hd h]
  obtain ⟨d, hd, hdkey⟩ := hmem
  have hfind : w.records.findOne (staleFilter (pendingRecord c key operation requestHash reservationID now).key now) = some d :=
    find_pinned (staleFilter_pins key now) hd (hstale d hd hdkey)
  unfold replaceStale
  simp only [perform, Prog.perform_bind]
  refine alone_call hfit.before ⟨{}, _, _, rfl, rfl, rfl⟩ fun e r w₁ hT hx => ?_
  have hfit₁ := hfit.quiet hT rfl hx
  simp only [World.answer, World.tick, hfind] at hx
  cases hx
  refine alone_insertRecord hfit₁ (fun w₂ hfit₂ hmem => reserved_pendingRecord hrecord hfit₂ hnow hmem) fun w₂ _ _ hdup => ?_
  -- the stale record was the only one under the key
  obtain ⟨x, hx, hxkey⟩ := hdup
  have hkept := Coll.neg_of_mem_deleteOne (staleFilter_pins key now) hx
  rw [hstale x (Coll.mem_of_mem_deleteOne hx) hxkey] at hkept
  cases hkept

include hkey hhash in
theorem validate_pendingRecord {reservationID : String} {now today : Time} (hnow : t₀ ≤ now) (htoday : today < T) :
    (pendingRecord c key operation requestHash reservationID now).validate today = .ok () := by
  have hlater : today < now + c.idempotencyTTL :=
    Nat.lt_of_lt_of_le htoday (Nat.le_trans hrecord (Nat.add_le_add_right hnow _))
  have hexpires : now + c.idempotencyTTL ≠ 0 := Nat.ne_of_gt (Nat.zero_lt_of_lt hlater)
  exact (if_neg (not_or.mpr ⟨hkey, not_or.mpr ⟨hhash, hexpires⟩⟩)).trans (if_neg (not_not.mpr hlater))

include hc hkey hhash in
theorem total_reserve {reservationID : String} {now : Time} (hid : reservationID ≠ "") (hfit : Fit c t₀ T request w)
    (hfree : Free key operation requestHash t₀ T w) (hnow : t₀ ≤ now) (hnow' : now < T) :
    Total c T Eq i (Reserved c t₀ T request key reservationID)
      (reserve (pendingRecord c key operation requestHash reservationID now) now) w := by
  have hid : (pendingRecord c key operation requestHash reservationID now).reservationID ≠ "" := hid
  have hlease : (pendingRecord c key operation requestHash reservationID now).leaseUntil ≠ 0 :=
    Nat.ne_of_gt (Nat.add_pos_right _ hc.lease)
  have hvalid : ∀ today, today < T → (pendingRecord c key operation requestHash reservationID now).validate today = .ok () :=
    fun today h => validate_pendingRecord hkey hhash hrecord hnow h
  unfold reserve
  rw [if_neg (not_or.mpr ⟨hid, hlease⟩)]
  simp only [hvalid now hnow', perform, Prog.perform_bind]
  refine alone_now hfit fun w₁ hfit₁ hr₁ _ => ?_
  simp only [hvalid _ hfit₁.before]
  refine alone_insertRecord hfit₁ (fun w₂ hfit₂ hmem => reserved_pendingRecord hrecord hfit₂ hnow hmem) ?_
  intro w₂ hfit₂ hr₂ hdup
  have hfree₂ := hfree.same (hr₂.trans hr₁)
  refine alone_findRecord hkey hfit₂ (fun w₃ d hfit₃ hr₃ hd hdkey hvisible => ?_) fun w₃ hfit₃ hr₃ hgone => ?_
  · exact total_contend hfit₃ (hfree₂.same hr₃) hnow hd hdkey hvisible
  · have hmem : ∃ d ∈ w₃.records, d.key = key := by
      rw [hr₃, hr₂]
      exact hdup
    exact total_replaceStale hrecord hfit₃ hnow hmem hgone

section
variable {execute : Handler} {post : World → Except GoErr MessageResult → Prop}
  (hexecute : ∀ w reservationID, reservationID ≠ "" → Fit c t₀ T request w → Owned key reservationID T w →
    Total c T Eq i post (executeReserved c key reservationID execute) w)
include hc hkey hhash hexecute

theorem total_reserved {reservationID : String} {now : Time} {k : Except GoErr (IdempotencyRecord × Bool) → Handler}
    (hid : reservationID ≠ "") (hfit : Fit c t₀ T request w) (hfree : Free key operation requestHash t₀ T w) (hnow : t₀ ≤ now)
    (hnow' : now < T) (hk : ∀ d, k (.ok (d, true)) = executeReserved c key reservationID execute) :
    Total c T Eq i post (reserve (pendingRecord c key operation requestHash reservationID now) now >>= k) w := by
  refine Pool.Total.bind ((total_reserve hc hkey hhash hrecord hid hfit hfree hnow hnow').mono ?_)
  rintro w' _ ⟨⟨d, rfl⟩, hfit', howned⟩
  rw [hk]
  exact hexecute w' reservationID hid hfit' howned

theorem total_waitRound {again : Time → Handler} {deadline : Time} (hfit : Fit c t₀ T request w)
    (hfree : Free key operation requestHash t₀ T w) (hdeadline : deadline < t₀) :
    Total c T Eq i post (waitRound c key operation requestHash execute again deadline) w := by
  unfold waitRound
  simp only [perform, Prog.perform_bind]
  refine alone_now hfit fun w₁ hfit₁ hr₁ _ => ?_
  rw [if_pos (Nat.lt_of_lt_of_le hdeadline hfit₁.start)]
  refine alone_newUUID hfit₁ fun w₂ id hfit₂ hr₂ hid => ?_
  exact total_reserved hc hkey hhash hrecord hexecute hid hfit₂ (hfree.same (hr₂.trans hr₁)) hfit₁.start hfit₁.before
    fun _ => rfl

theorem total_waitForIdempotency {polls : Nat} {deadline : Time} (hfit : Fit c t₀ T request w)
    (hfree : Free key operation requestHash t₀ T w) (hdeadline : deadline < t₀) :
    Total c T Eq i post (waitForIdempotency c key operation requestHash execute polls deadline) w := by
  cases polls with
  | zero => exact total_waitRound hc hkey hhash hrecord hexecute hfit hfree hdeadline
  | succ polls => exact total_waitRound hc hkey hhash hrecord hexecute hfit hfree hdeadline

theorem total_coordinate {polls : Nat} (hfit : Fit c t₀ T request w) (hfree : Free key operation requestHash t₀ T w) :
    Total c T Eq i post (coordinate c key operation requestHash execute polls) w := by
  unfold coordinate
  simp only [perform, Prog.perform_bind]
  refine alone_now hfit fun w₁ hfit₁ hr₁ _ => ?_
  refine alone_findRecord hkey hfit₁ (fun w₂ d hfit₂ hr₂ hd hdkey _ => ?_) fun w₂ hfit₂ hr₂ _ => ?_
  · have hfree₂ := hfree.same (hr₂.trans hr₁)
    obtain ⟨hoperation, hdhash, hopen, hlease, -⟩ := hfree₂ d hd hdkey
    simp only [hoperation, hdhash, hopen, ne_eq, not_true_eq_false, or_self, if_false, Bool.false_eq_true]
    exact total_waitForIdempotency hc hkey hhash hrecord hexecute hfit₂ hfree₂ hlease
  · have hnotFound : (!errIdempotencyNotFound.is errIdempotencyNotFound) = false := rfl
    simp only [hnotFound, Bool.false_eq_true, if_false]
    refine alone_newUUID hfit₂ fun w₃ id hfit₃ hr₃ hid => ?_
    exact total_reserved hc hkey hhash hrecord hexecute hid hfit₃ (hfree.same (hr₃.trans (hr₂.trans hr₁))) hfit₁.start
      hfit₁.before fun _ => rfl

end

end

end

/-! ## The execution and its renewals -/

theorem Renewed.refl (w : World) : Renewed T w w := ⟨rfl, Nat.le_refl _, fun h => h⟩

theorem Renewed.tokens (h : Renewed T w w') : w'.tokens = w.tokens := by rw [h.same]

theorem Renewed.trans {w'' : World} (h : Renewed T w w') (h' : Renewed T w' w'') : Renewed T w w'' := by
  refine ⟨?_, Nat.le_trans h.later h'.later, fun hT => h'.before (h.before hT)⟩
  rw [h'.same, h.same]

section
variable {reservationID : String} (hc : c.Lawful) (hkey : key ≠ "") (hid : reservationID ≠ "")
include hc hkey hid

theorem total_renewIdempotencyLease (ticks : Nat) (howned : Owned key reservationID T w) (hT : w.clock < T) :
    Total c T Eq i (fun w' err => err = none ∧ Renewed T w w' ∧ Owned key reservationID T w')
      (renewIdempotencyLease c key reservationID ticks) w := by
  induction ticks generalizing w with
  | zero => exact ⟨rfl, .refl w, howned⟩
  | succ ticks ih =>
    simp only [renewIdempotencyLease, perform, Prog.perform_bind]
    refine alone_call hT ⟨{}, _, _, rfl, rfl, rfl⟩ fun e r w₁ hT₁ hx => ?_
    cases hx
    have hlease : ¬ (key = "" ∨ reservationID = "" ∨ w.clock + e.delay + c.idempotencyLease ≤ w.clock + e.delay) := by
      refine not_or.mpr ⟨hkey, not_or.mpr ⟨hid, Nat.not_le.mpr (Nat.lt_add_of_pos_right hc.lease)⟩⟩
    simp only [renew, World.tick, hlease, if_false, perform]
    refine alone_call hT₁ ⟨{}, _, _, rfl, rfl, rfl⟩ fun e' r w₂ hT₂ hx => ?_
    obtain ⟨w', hok, hsame, howned'⟩ := renew_owned (w := (w.tick e.delay).tick e'.delay)
      (w.clock + e.delay + c.idempotencyLease) howned hT₁
    simp only [World.answer, World.tick] at hx hok
    rw [hok] at hx
    cases hx
    have hrenewed : Renewed T w w₂ := by
      rw [hsame]
      exact ⟨rfl, Nat.le_trans (Nat.le_add_right ..) (Nat.le_add_right ..), fun _ => hT₂⟩
    exact (ih howned' (hrenewed.before hT)).mono fun _ _ h => ⟨h.1, hrenewed.trans h.2.1, h.2.2⟩

theorem total_renewals (howned : Owned key reservationID T w) (hT : w.clock < T) :
    Total c T Eq i (fun w' err => err = none ∧ Renewed T w w' ∧ Owned key reservationID T w')
      (renewals c key reservationID) w := by
  unfold renewals
  by_cases hinterval : renewInterval c = 0
  · rw [if_pos hinterval]
    exact ⟨rfl, .refl w, howned⟩
  · rw [if_neg hinterval]
    simp only [perform, Prog.perform_bind]
    refine alone_call hT ⟨{}, _, _, rfl, rfl, rfl⟩ fun e r w₁ hT₁ hx => ?_
    cases hx
    have hrenewed : Renewed T w (w.tick e.delay) := ⟨rfl, Nat.le_add_right .., fun _ => hT₁⟩
    exact (total_renewIdempotencyLease (w := w.tick e.delay) hc hkey hid e.ticks howned hT₁).mono
      fun _ _ h => ⟨h.1, hrenewed.trans h.2.1, h.2.2⟩

theorem total_withRenewal {α : Type} {Q : α → Prop} {prog : Prog Ans α} (hspares : Spares prog)
    (howned : Owned key reservationID T w) (hT : w.clock < T) (h : Total c T (Renewed T) i (fun _ a => Q a) prog w) :
    Total c T Eq i (fun w' r => r.2 = none ∧ Q r.1 ∧ Owned key reservationID T w' ∧ w'.clock < T)
      (withRenewal c key reservationID prog) w := by
  induction prog generalizing w with
  | ret a =>
    refine Pool.Total.bind ((total_renewals hc hkey hid howned hT).mono fun w' err hpost => ?_)
    obtain ⟨rfl, hr, ho⟩ := hpost
    exact ⟨rfl, h, ho, hr.before hT⟩
  | call cmd k ih =>
    unfold withRenewal
    refine Pool.Total.bind ((total_renewals hc hkey hid howned hT).mono fun w' err hpost => ?_)
    obtain ⟨rfl, hr, ho⟩ := hpost
    obtain ⟨hcan, hnext⟩ := h w' hr
    intro w₁ heq
    subst heq
    refine ⟨hcan, fun e r w₂ he hx => ih r (hspares.2 r) ?_ ?_ (hnext e r w₂ he hx)⟩
    · rw [Owned, exec_sparesRecords hspares.1 hx]
      exact ho
    · rw [exec_clock hx]
      exact he.2

theorem total_executeReserved {execute : Handler} {succeeds : Bool} (hspares : Spares execute)
    (howned : Owned key reservationID T w) (hT : w.clock < T)
    (h : Total c T (Renewed T) i (fun _ r => r.isOk = succeeds) execute w) :
    Total c T Eq i (fun w' r => w'.clock < T ∧ r.isOk = succeeds ∧ (succeeds = true → Completed key w'))
      (executeReserved c key reservationID execute) w := by
  unfold executeReserved
  refine Pool.Total.bind ((total_withRenewal hc hkey hid hspares howned hT h).mono ?_)
  rintro w₁ ⟨r, _⟩ ⟨rfl, hr, howned₁, hT₁⟩
  cases r with
  | error err =>
    simp only [perform, Prog.perform_bind]
    refine alone_call hT₁ ⟨{}, _, _, rfl, rfl, rfl⟩ fun e r w₂ hT₂ hx => ?_
    cases hx
    have hfails : succeeds = false := hr.symm
    exact ⟨hT₂, hr, fun h => absurd (hfails.symm.trans h) Bool.false_ne_true⟩
  | ok result =>
    simp only [perform, Prog.perform_bind]
    refine alone_call hT₁ ⟨{}, _, _, rfl, rfl, rfl⟩ fun e r w₂ hT₂ hx => ?_
    cases hx
    refine alone_call hT₂ ⟨{}, _, _, rfl, rfl, rfl⟩ fun e' r w₃ hT₃ hx => ?_
    obtain ⟨w', hok, hdone⟩ := complete_owned (w := (w₁.tick e.delay).tick e'.delay) result.message howned₁ hT₂
    have hclock : w'.clock = w₁.clock + e.delay + e'.delay := by
      obtain ⟨-, -, -, hsame, -⟩ := complete_ok hok
      rw [hsame]
      rfl
    simp only [World.answer, World.tick] at hx hok
    rw [hok] at hx
    cases hx
    exact ⟨hclock ▸ hT₃, hr, fun _ => hdone⟩

end

/-! ## Executing again -/

section
variable {α : Type} {post : World → α → Prop}

theorem core_call {k : Ans cmd → Prog Ans α} (hfit : Fit c t₀ T request w)
    (hcan : ∀ w₁ : World, ∃ e r w', e.fail = none ∧ e.delay = 0 ∧ w₁.answer c i cmd e = some (r, w'))
    (hk : ∀ w₁ e r w', Renewed T w w₁ → Fit c t₀ T request w₁ → w₁.clock + e.delay < T →
      (w₁.tick e.delay).answer c i cmd e = some (r, w') → Total c T (Renewed T) i post (k r) w') :
    Total c T (Renewed T) i post (.call cmd k) w :=
  total_call (P := fun w₁ => Renewed T w w₁ ∧ Fit c t₀ T request w₁) (fun _ hr => ⟨hr, hfit.renewed hr⟩) (fun _ h => h.2.before)
    (fun w₁ _ => hcan w₁) fun w₁ e r w' h => hk w₁ e r w' h.1 h.2

theorem core_now {k : Time → Prog Ans α} (hfit : Fit c t₀ T request w)
    (hk : ∀ w', Fit c t₀ T request w' → w'.tokens = w.tokens → Total c T (Renewed T) i post (k w'.clock) w') :
    Total c T (Renewed T) i post (.call .now k) w := by
  refine core_call hfit (fun _ => ⟨{}, _, _, rfl, rfl, rfl⟩) fun w₁ e r w' hr hfit₁ hT hx => ?_
  have hfit' := hfit₁.quiet hT rfl hx
  cases hx
  exact hk _ hfit' hr.tokens

theorem unused_draw (hc : c.Lawful) (hsane : Sane c w) {id : String} {r : Except GoErr String} (hx : w.draw i id = some (r, w')) :
    r = .ok id ∧ id ≠ "" ∧ w'.tokens = w.tokens ∧ ∀ t ∈ w'.tokens, t.id ≠ id ∧ t.tokenHash ≠ c.authHashToken id := by
  obtain ⟨hr, hid, hfresh, rfl⟩ := draw_cases hx
  refine ⟨hr, hid, rfl, fun t ht => ⟨fun heq => ?_, fun heq => ?_⟩⟩
  · obtain ⟨j, hdrawn⟩ := hsane.id t ht
    exact hfresh _ hdrawn heq
  · obtain ⟨j, raw, hdrawn, hhash⟩ := hsane.hash t ht
    exact hfresh _ hdrawn (hc.injective (hhash.symm.trans heq))

structure Storable (c : DomainAuthComponent) (T : Time) (t : RefreshToken) (w : World) : Prop where
  valid : ∀ now, now < T → refreshTokenDocumentFromDomain t now = .ok t
  unused : ∀ x ∈ w.tokens, x.id ≠ t.id ∧ x.tokenHash ≠ t.tokenHash

theorem total_createToken {t : RefreshToken} (hfit : Fit c t₀ T request w) (ht : Storable c T t w) :
    Total c T (Renewed T) i (fun _ r => r = .ok ()) (createToken t) w := by
  unfold createToken
  simp only [perform, Prog.perform_bind]
  refine core_now hfit fun w₁ hfit₁ ht₁ => ?_
  simp only [ht.valid _ hfit₁.before]
  refine core_call hfit₁ (fun _ => ⟨{}, _, _, rfl, rfl, rfl⟩) fun w₂ e r w₃ hr₂ _ _ hx => ?_
  obtain ⟨tokens, hins⟩ := Coll.insertOne_isSome (d := t) (c := w₂.tokens) fun x hx => by
    have htokens : w₂.tokens = w.tokens := hr₂.tokens.trans ht₁
    obtain ⟨hid, hhash⟩ := ht.unused x (htokens ▸ hx)
    simp [refreshTokenIndexes, Index.and, Index.on, Ne.symm hid, Ne.symm hhash]
  simp only [World.answer, World.insertToken, World.tick, hins, commit] at hx
  cases hx
  rfl

theorem findIdentity_known {provider : AuthProvider} {subject : String} {password : Option String} (hsubject : subject ≠ "")
    (h : Known c provider subject password (· ≠ "") w) : ∃ d, w.findIdentity provider subject = .ok d ∧ d.accountID ≠ "" ∧
      ∀ p, password = some p → d.passwordHash ≠ "" ∧ c.compareHashAndPassword d.passwordHash p = true := by
  obtain ⟨d, hd, rfl, rfl, hrest⟩ := h
  exact ⟨d, findIdentity_of_mem hd hsubject, hrest⟩

theorem core_findIdentity {provider : AuthProvider} {subject : String} {password : Option String}
    {k : Except GoErr Identity → Prog Ans α} (hsubject : subject ≠ "") (hknown : Known c provider subject password (· ≠ "") w)
    (hfit : Fit c t₀ T request w)
    (hk : ∀ w' d, Fit c t₀ T request w' → d.accountID ≠ "" →
      (∀ p, password = some p → d.passwordHash ≠ "" ∧ c.compareHashAndPassword d.passwordHash p = true) →
      Total c T (Renewed T) i post (k (.ok d)) w') :
    Total c T (Renewed T) i post (.call (.findIdentity provider subject) k) w := by
  refine core_call hfit (fun _ => ⟨{}, _, _, rfl, rfl, rfl⟩) fun w₁ e r w' hr hfit₁ hT hx => ?_
  have hfit' := hfit₁.quiet hT rfl hx
  have hknown₁ : Known c provider subject password (· ≠ "") (w₁.tick e.delay) := by
    rw [hr.same]
    exact hknown
  obtain ⟨d, hfind, haccount, hverifies⟩ := findIdentity_known hsubject hknown₁
  cases hx
  rw [hfind]
  exact hk _ d hfit' haccount hverifies

theorem findValid_spent {tokenHash : String} {now : Time} (h : Spent tokenHash w) :
    w.findValid tokenHash now = .error errInvalidToken := by
  cases hfind : w.findValid tokenHash now with
  | error err => rw [findValid_error hfind]
  | ok t =>
    obtain ⟨ht, hhash, hvalid, -⟩ := findValid_ok hfind
    exact absurd hvalid (h t ht hhash)

section
variable {tokenHash : String} (hspent : ∀ w, Fit c t₀ T request w → Spent tokenHash w)
include hspent

theorem core_findValid {now : Time} {k : Except GoErr RefreshToken → Prog Ans α} (hfit : Fit c t₀ T request w)
    (hk : ∀ w', Total c T (Renewed T) i post (k (.error errInvalidToken)) w') :
    Total c T (Renewed T) i post (.call (.findValid tokenHash now) k) w := by
  refine core_call hfit (fun _ => ⟨{}, _, _, rfl, rfl, rfl⟩) fun w₁ e r w' _ hfit₁ hT hx => ?_
  have hfit' := hfit₁.quiet hT rfl hx
  cases hx
  rw [findValid_spent (hspent _ hfit')]
  exact hk _

end

theorem total_refreshAuthenticateCore {r : RefreshAuthenticateRequest}
    (hspent : ∀ w, Fit c t₀ T request w → Spent (c.authHashToken r.refreshToken) w) (hfit : Fit c t₀ T request w) :
    Total c T (Renewed T) i (fun _ r => r.isOk = false) (refreshAuthenticateCore c r) w := by
  unfold refreshAuthenticateCore
  simp only [perform, Prog.perform_bind]
  exact core_now hfit fun _ hfit₁ _ => core_findValid hspent hfit₁ fun _ => rfl

theorem total_revokeRefreshTokenCore {r : RevokeRefreshTokenRequest}
    (hspent : ∀ w, Fit c t₀ T request w → Spent (c.authHashToken r.refreshToken) w) (hfit : Fit c t₀ T request w) :
    Total c T (Renewed T) i (fun _ r => r.isOk = false) (revokeRefreshTokenCore c r) w := by
  unfold revokeRefreshTokenCore
  simp only [perform, Prog.perform_bind]
  exact core_now hfit fun _ hfit₁ _ => core_findValid hspent hfit₁ fun _ => rfl

section
variable (hc : c.Lawful) (htoken : T ≤ t₀ + c.refreshTokenTTL)

include hc htoken

theorem total_newToken {accountID installID : String} (haccount : accountID ≠ "") (hissuable : Issuable c installID)
    (hfit : Fit c t₀ T request w) :
    Total c T (Renewed T) i (fun w' r => ∃ made, r = .ok made ∧ Fit c t₀ T request w' ∧ Storable c T made.1 w')
      (newToken c accountID installID) w := by
  obtain ⟨hinstall, htrim, httl⟩ := hissuable
  unfold newToken
  rw [if_neg (not_or.mpr ⟨haccount, not_or.mpr ⟨hinstall, httl⟩⟩)]
  simp only [perform, Prog.perform_bind, Prog.pure_eq]
  refine core_call hfit (fun w₁ => draw_fresh w₁ i) fun w₁ e r w₂ _ hfit₁ hT hx => ?_
  have hfit₂ := hfit₁.draw hT hx
  obtain ⟨rfl, -, -, hunused₂⟩ := unused_draw (w := w₁.tick e.delay) hc ⟨hfit₁.sane.id, hfit₁.sane.hash⟩ hx
  refine core_call hfit₂ (fun w₁ => draw_fresh w₁ i) fun w₃ e' r w₄ hr₃ hfit₃ hT hx => ?_
  have hfit₄ := hfit₃.draw hT hx
  obtain ⟨rfl, hraw, ht₄, hunused₄⟩ := unused_draw (w := w₃.tick e'.delay) hc ⟨hfit₃.sane.id, hfit₃.sane.hash⟩ hx
  refine core_now hfit₄ fun w₅ hfit₅ ht₅ => ⟨_, rfl, hfit₅, fun now hnow => ?_, fun x hx => ⟨?_, ?_⟩⟩
  · have hlater : now < w₅.clock + c.refreshTokenTTL :=
      Nat.lt_of_lt_of_le hnow (Nat.le_trans htoken (Nat.add_le_add_right hfit₅.start _))
    have hexpires : w₅.clock + c.refreshTokenTTL ≠ 0 := Nat.ne_of_gt (Nat.zero_lt_of_lt hlater)
    exact (if_neg (not_or.mpr ⟨haccount, not_or.mpr ⟨hc.hash _ hraw, not_or.mpr ⟨htrim, hexpires⟩⟩⟩)).trans
      (if_neg fun h => h.2 hlater)
  · have htokens : w₅.tokens = w₂.tokens := ht₅.trans (ht₄.trans hr₃.tokens)
    exact (hunused₂ x (htokens ▸ hx)).1
  · exact (hunused₄ x (ht₅ ▸ hx)).2

theorem total_issueToken {accountID installID : String} (haccount : accountID ≠ "") (hissuable : Issuable c installID)
    (hfit : Fit c t₀ T request w) :
    Total c T (Renewed T) i (fun _ r => ∃ made, r = .ok made) (issueToken c accountID installID) w := by
  refine Pool.Total.bind ((total_newToken hc htoken haccount hissuable hfit).mono ?_)
  rintro w₁ _ ⟨made, rfl, hfit₁, hmade⟩
  refine Pool.Total.bind ((total_createToken hfit₁ hmade).mono ?_)
  rintro _ _ rfl
  exact ⟨made, rfl⟩

theorem total_guestAuthenticateCore {r : GuestAuthenticateRequest} (hdone : GuestDone c (trimSpace r.installID) w)
    (hfit : Fit c t₀ T request w) :
    Total c T (Renewed T) i (fun _ r => r.isOk = true) (guestAuthenticateCore c r) w := by
  obtain ⟨hissuable, hknown⟩ := hdone
  unfold guestAuthenticateCore
  simp only [perform, Prog.perform_bind]
  refine core_findIdentity hissuable.1 hknown hfit fun w₁ d hfit₁ haccount _ => ?_
  refine Pool.Total.bind ((total_issueToken hc htoken haccount hissuable hfit₁).mono ?_)
  rintro _ _ ⟨made, rfl⟩
  rfl

theorem total_passwordAuthenticateCore {r : PasswordAuthenticateRequest}
    (hdone : PasswordDone c (trimSpace r.username) r.password (trimSpace r.installID) w) (hfit : Fit c t₀ T request w) :
    Total c T (Renewed T) i (fun _ r => r.isOk = true) (passwordAuthenticateCore c r) w := by
  obtain ⟨haccepts, hissuable, hknown⟩ := hdone
  have husername : trimSpace r.username ≠ "" := fun h => by simp [acceptsCredentials, h] at haccepts
  unfold passwordAuthenticateCore
  simp only [haccepts, Bool.not_true, Bool.false_eq_true, if_false, perform, Prog.perform_bind, Prog.pure_eq]
  refine core_findIdentity husername hknown hfit fun w₁ d hfit₁ haccount hverifies => ?_
  obtain ⟨hhash, hcompare⟩ := hverifies _ rfl
  simp only [passwordLogin, hhash, hcompare, not_true_eq_false, or_self, if_false]
  refine Pool.Total.bind ((total_issueToken hc htoken haccount hissuable hfit₁).mono ?_)
  rintro _ _ ⟨made, rfl⟩
  rfl

theorem total_core (hfit : Fit c t₀ T request w) :
    Total c T (Renewed T) i (fun _ r => r.isOk = request.isLogin) (request.core c) w := by
  cases request with
  | guest r => exact total_guestAuthenticateCore hc htoken hfit.executed hfit
  | password r => exact total_passwordAuthenticateCore hc htoken hfit.executed hfit
  | refresh r =>
    have hspent : ∀ w, Fit c t₀ T (.refresh r) w → Spent (c.authHashToken r.refreshToken) w := fun _ h => h.executed
    exact total_refreshAuthenticateCore hspent hfit
  | revoke r =>
    have hspent : ∀ w, Fit c t₀ T (.revoke r) w → Spent (c.authHashToken r.refreshToken) w := fun _ h => h.executed
    exact total_revokeRefreshTokenCore hspent hfit
  | clientRefresh r =>
    have hspent : ∀ w, Fit c t₀ T (.clientRefresh r) w → Spent (c.authHashToken r.refreshToken) w := fun _ h => h.executed
    have h := total_refreshAuthenticateCore (i := i)
      (r := { refreshToken := r.refreshToken, installID := r.installID, idempotencyKey := r.idempotencyKey }) hspent hfit
    refine Pool.Total.bind (h.mono fun _ r hr => ?_)
    cases r with
    | error err => rfl
    | ok res => cases hr
  | clientLogin r =>
    obtain ⟨provider, _, installID, username, password, key⟩ := r
    cases provider with
    | unspecified => exact hfit.executed.elim
    | provider p =>
      cases p with
      | guest =>
        have hdone : GuestDone c (trimSpace installID) w := hfit.executed
        have h := total_guestAuthenticateCore (i := i) (r := { installID, idempotencyKey := key }) hc htoken hdone hfit
        refine Pool.Total.bind (h.mono fun _ r hr => ?_)
        cases r with
        | error err => cases hr
        | ok res => rfl
      | password =>
        have hdone : PasswordDone c (trimSpace username) password (trimSpace installID) w := hfit.executed
        have h := total_passwordAuthenticateCore (i := i)
          (r := { username, password, installID, idempotencyKey := key }) hc htoken hdone hfit
        refine Pool.Total.bind (h.mono fun _ r hr => ?_)
        cases r with
        | error err => cases hr
        | ok res => rfl
      | steam | apple | google | wechat => exact hfit.executed.elim

end

end

/-! ## The retry -/

theorem alone_acquireLock {α : Type} {post : World → α → Prop} {process : Nat} {k : Nat → Prog Ans α}
    (hunlocked : w.locks.table.lookup (process, key) = none) (hfit : Fit c t₀ T request w)
    (hk : ∀ w' entry, Fit c t₀ T request w' → w'.records = w.records → (∃ locks, w'.locks.lock entry = some locks) →
      Total c T Eq i post (k entry) w') : Total c T Eq i post (.call (.acquireLock process key) k) w := by
  refine alone_call hfit.before ⟨{}, _, _, rfl, rfl, rfl⟩ fun e r w' hT hx => ?_
  have hfit' := hfit.quiet hT rfl hx
  have hlock : ∃ locks, (w.locks.acquire process key).2.lock (w.locks.acquire process key).1 = some locks := by
    simp [LockTable.acquire, hunlocked, LockTable.lock]
  obtain ⟨entry, locks, hacquire⟩ : ∃ entry locks, w.locks.acquire process key = (entry, locks) := ⟨_, _, rfl⟩
  rw [hacquire] at hlock
  simp only [World.answer, World.tick, hacquire] at hx
  cases hx
  exact hk _ _ hfit' rfl hlock

theorem alone_lock {α : Type} {post : World → α → Prop} {entry : Nat} {k : Unit → Prog Ans α}
    (hlock : ∃ locks, w.locks.lock entry = some locks) (hfit : Fit c t₀ T request w)
    (hk : ∀ w', Fit c t₀ T request w' → w'.records = w.records → Total c T Eq i post (k ()) w') :
    Total c T Eq i post (.call (.lock entry) k) w := by
  obtain ⟨locks, hlock⟩ := hlock
  refine alone_call hfit.before ⟨{}, (), { w with locks }, rfl, rfl, ?_⟩ fun e r w' hT hx => ?_
  · simp only [World.answer, hlock, Option.map_some]
  have hrecords : w'.records = (w.tick e.delay).records := answer_sparesRecords rfl hx
  exact hk w' (hfit.quiet hT rfl hx) hrecords

theorem total_withIdempotency (site : Site) (hc : c.Lawful) (hkey : trimSpace request.idempotencyKey ≠ "")
    (hrecord : T ≤ t₀ + c.idempotencyTTL) (htoken : T ≤ t₀ + c.refreshTokenTTL)
    (hunlocked : w.locks.table.lookup (site.process, trimSpace request.idempotencyKey) = none) (hfit : Fit c t₀ T request w)
    (hfree : Free (trimSpace request.idempotencyKey) request.operation (c.digest (clearIdempotencyKey request)) t₀ T w) :
    Total c T Eq i
      (fun w' r => r.isOk = request.isLogin ∧ (request.isLogin = true → Completed (trimSpace request.idempotencyKey) w'))
      (withIdempotency c site request.idempotencyKey request.operation request (request.core c)) w := by
  unfold withIdempotency
  simp only [hkey, if_false, perform, Prog.perform_bind]
  refine alone_acquireLock hunlocked hfit fun w₁ entry hfit₁ hr₁ hlock => ?_
  refine alone_lock hlock hfit₁ fun w₂ hfit₂ hr₂ => ?_
  refine Pool.Total.bind ((total_coordinate hc hkey (hc.digest _) hrecord
    (fun v id hid hfit howned => total_executeReserved hc hkey hid (spares_core c request) howned hfit.before
      (total_core hc htoken hfit)) hfit₂ (hfree.same (hr₂.trans hr₁))).mono ?_)
  rintro w₃ r ⟨hT₃, hr, hdone⟩
  refine alone_call hT₃ ⟨{}, _, _, rfl, rfl, rfl⟩ fun e r w₄ hT₄ hx => ?_
  cases hx
  refine alone_call hT₄ ⟨{}, _, _, rfl, rfl, rfl⟩ fun e r w₅ hT₅ hx => ?_
  cases hx
  exact ⟨hr, hdone⟩

end Recovery

def sentTwice (site₀ site₁ : Site) (payload : Payload) (background : List Call) : List Call :=
  .serve site₀ payload :: .serve site₁ payload :: background

section
variable {c : DomainAuthComponent} {w₀ : World} {site₀ site₁ : Site} {payload : Payload} {request : Request}
  {background : List Call} {first between : List (Nat × Env)} {T : Time}

namespace Recovery

section
variable (hsane : Sane c w₀) (hrequest : payload.request = some request) (hkey : trimSpace request.idempotencyKey ≠ "")
  (hfirst : ∀ a ∈ first, a.1 = 0)
  (hwrote : (Pool.run (exec c) (State.init c w₀ (sentTwice site₀ site₁ payload background)) first).world.tokens ≠ w₀.tokens)
include hsane hrequest hkey hfirst hwrote

theorem left_behind (hbackground : ∀ call ∈ background, call.isBackground) (hbetween : ∀ a ∈ between, 2 ≤ a.1)
    (hlapsed : Lapsed c site₁ (trimSpace request.idempotencyKey) T
      (Pool.run (exec c) (State.init c w₀ (sentTwice site₀ site₁ payload background)) (first ++ between)).world) :
    let w := (Pool.run (exec c) (State.init c w₀ (sentTwice site₀ site₁ payload background)) (first ++ between)).world
    Fit c w.clock T request w ∧
      Free (trimSpace request.idempotencyKey) request.operation (c.digest (clearIdempotencyKey request)) w.clock T w := by
  intro w
  have hcrash : Crash.Inv c w₀ (Executed c request) (Agree (trimSpace request.idempotencyKey) request.operation _)
      (Pool.run (exec c) (State.init c w₀ (sentTwice site₀ site₁ payload background)) first).world :=
    Crash.crash_run rfl hrequest hkey hsane hfirst
  obtain ⟨hexecuted, hagree⟩ := hcrash.wrote.resolve_left hwrote
  have hcalls : ∀ i call, 2 ≤ i → (sentTwice site₀ site₁ payload background)[i]? = some call → call.isBackground := by
    intro i call hi hcall
    obtain ⟨i, rfl⟩ := Nat.exists_eq_add_of_le' hi
    exact hbackground call (List.mem_of_getElem? hcall)
  have hshrinks := Crash.shrinks_run (c := c) (w := w₀) hcalls first hbetween
  refine ⟨⟨Nat.le_refl _, hlapsed.starts, Crash.sane_shrinks hcrash.sane hshrinks, Crash.executed_shrinks hexecuted hshrinks⟩,
    fun d hd hdkey => ?_⟩
  obtain ⟨hoperation, hhash⟩ := hagree d (hshrinks.records d hd) hdkey
  obtain ⟨hopen, hlease⟩ := hlapsed.lapsed d hd hdkey
  exact ⟨hoperation, hhash, hopen, hlease, hlapsed.lasts d hd hdkey⟩

omit hsane hkey in
theorem serve_of_wrote (site : Site) : serve c site payload =
    withIdempotency c site request.idempotencyKey request.operation request (request.core c) := by
  rcases serve_eq c payload with ⟨err, hserve⟩ | ⟨request', hrequest', hserve⟩
  · have hret : (State.init c w₀ (sentTwice site₀ site₁ payload background)).procs[0]? = some (.ret (some (.error err))) := by
      simp only [State.init, Pool.start, sentTwice, List.map_cons, List.getElem?_cons_zero, Call.handler, hserve]
      rfl
    rw [Pool.run_of_ret (exec c) hret first hfirst] at hwrote
    exact absurd rfl hwrote
  · obtain rfl : request' = request := Option.some.inj (hrequest'.symm.trans hrequest)
    exact hserve site

end

end Recovery

open Recovery in
/-- The first call is stopped after it has written to the tokens. Until its
lease is over there is nothing but processes that start and the TTL monitor.
The second call, which then runs alone on a healthy store, succeeds and completes
the record if and only if the request is a login. -/
theorem retry_recovers_iff (hc : c.Lawful) (hsane : Sane c w₀) (hrequest : payload.request = some request)
    (hkey : trimSpace request.idempotencyKey ≠ "") (hbackground : ∀ call ∈ background, call.isBackground)
    (hfirst : ∀ a ∈ first, a.1 = 0) (hbetween : ∀ a ∈ between, 2 ≤ a.1)
    (hwrote : (Pool.run (exec c) (State.init c w₀ (sentTwice site₀ site₁ payload background)) first).world.tokens ≠ w₀.tokens)
    (hlapsed : Lapsed c site₁ (trimSpace request.idempotencyKey) T
      (Pool.run (exec c) (State.init c w₀ (sentTwice site₀ site₁ payload background)) (first ++ between)).world) :
    Recovers c T (trimSpace request.idempotencyKey) 1
      (Pool.run (exec c) (State.init c w₀ (sentTwice site₀ site₁ payload background)) (first ++ between)) ↔
      request.isLogin = true := by
  obtain ⟨hfit, hfree⟩ := left_behind hsane hrequest hkey hfirst hwrote hbackground hbetween hlapsed
  -- the second call has not moved
  have hmoved : ∀ a ∈ first ++ between, a.1 ≠ 1 := by
    intro a ha
    rcases List.mem_append.mp ha with h | h
    · rw [hfirst a h]
      decide
    · exact Nat.ne_of_gt (hbetween a h)
  have hproc := Pool.procs_run_of_ne (exec c) (i := 1) (first ++ between)
    (State.init c w₀ (sentTwice site₀ site₁ payload background)) hmoved
  have htotal := total_withIdempotency (i := 1) site₁ hc hkey hlapsed.record hlapsed.token hlapsed.unlocked hfit hfree
  rw [← serve_of_wrote hrequest hfirst hwrote site₁] at htotal
  have hhandler : Total c T Eq 1 (fun w r => ∃ x, r = some x ∧ x.isOk = request.isLogin ∧
      (request.isLogin = true → Completed (trimSpace request.idempotencyKey) w)) ((Call.serve site₁ payload).handler c)
      (Pool.run (exec c) (State.init c w₀ (sentTwice site₀ site₁ payload background)) (first ++ between)).world :=
    Pool.Total.bind (htotal.mono fun _ r h => ⟨r, rfl, h⟩)
  constructor
  · intro hrecovers
    obtain ⟨w, r, ⟨⟨res, rfl⟩, -⟩, x, hx, hok, -⟩ := hrecovers.meet (hhandler.ends hproc)
    cases hx
    exact hok.symm
  · intro hlogin
    refine Pool.Total.ends hproc (hhandler.mono ?_)
    rintro w _ ⟨x, rfl, hok, hdone⟩
    rw [hlogin] at hok
    cases x with
    | error err => cases hok
    | ok res => exact ⟨⟨res, rfl⟩, hdone hlogin⟩

end

instance (T : Time) (e : Env) (w : World) : Decidable (Healthy T e w) :=
  inferInstanceAs (Decidable (e.fail = none ∧ w.clock + e.delay < T))

instance (T : Time) (i : Nat) (s : State) (a : Nat × Env) : Decidable (Pool.Alone (Healthy T) i s a) :=
  inferInstanceAs (Decidable (a.1 = i ∧ Healthy T a.2 s.world))

theorem plainComponent_lawful : plainComponent.Lawful :=
  ⟨Function.injective_id, fun _ h => h, fun _ => (by decide : "digest" ≠ ""), by decide⟩

def keyedLogin : Payload := .guestAuthenticate (some { installID := "phone", idempotencyKey := "k" })

def stoppedLogin : List (Nat × Env) :=
  drawing (["", "", "", "", "r", "", "", "", "", "", "account", "", "identity", "", "", "", "token", "", "raw", "", "", "",
    ""].map fun id => (0, id))

def later31 : List (Nat × Env) := [(2, { delay := 31 * 10 ^ 9 })]

def loginToRetry : State :=
  Pool.run (exec plainComponent) (State.init plainComponent (.init 5) (sentTwice {} { process := 1 } keyedLogin [.start]))
    (stoppedLogin ++ later31)

theorem stopped_login_recovers :
    (∀ d ∈ loginToRetry.world.records.docs, d.isCompleted = false) ∧
      Recovers plainComponent (32 * 10 ^ 9) (trimSpace "k") 1 loginToRetry := by
  have hsane : Sane plainComponent (.init 5) :=
    ⟨fun _ h => absurd h (Coll.not_mem_empty _), fun _ h => absurd h (Coll.not_mem_empty _)⟩
  have hwrote : (Pool.run (exec plainComponent) (State.init plainComponent (.init 5)
      (sentTwice {} { process := 1 } keyedLogin [.start])) stoppedLogin).world.tokens.docs.length = 1 := by decide +kernel
  have hdocs : ∀ d ∈ loginToRetry.world.records.docs,
      d.isCompleted = false ∧ d.leaseUntil < 31 * 10 ^ 9 + 5 ∧ 32 * 10 ^ 9 ≤ d.expiresAt := by decide +kernel
  have hclock : loginToRetry.world.clock = 31 * 10 ^ 9 + 5 := by decide +kernel
  have hrequest : keyedLogin.request = some (.guest { installID := "phone", idempotencyKey := "k" }) := rfl
  have hlapsed : Lapsed plainComponent { process := 1 } (trimSpace "k") (32 * 10 ^ 9) loginToRetry.world := by
    refine ⟨by decide +kernel, fun d hd _ => ?_, fun d hd _ => .inl (hdocs d hd).2.2, ?_, ?_, ?_⟩
    · rw [hclock]
      exact ⟨(hdocs d hd).1, (hdocs d hd).2.1⟩
    all_goals
      rw [hclock]
      decide
  refine ⟨fun d hd => (hdocs d hd).1, (retry_recovers_iff plainComponent_lawful hsane hrequest (by decide +kernel) (by decide)
    (by decide) (by decide) (fun h => ?_) hlapsed).mpr rfl⟩
  rw [h] at hwrote
  cases hwrote

def loggedIn : World :=
  (Pool.run (exec plainComponent) (State.init plainComponent (.init 5)
    [.serve {} (.guestAuthenticate (some { installID := "phone" }))])
    (drawing (["", "account", "identity", "", "token", "raw", "", ""].map fun id => (0, id)))).world

def keyedRefresh : Payload :=
  .refreshAuthenticate (some { refreshToken := "raw", installID := "phone", idempotencyKey := "k" })

def stoppedRefresh : List (Nat × Env) :=
  drawing (["", "", "", "", "r", "", "", "", "", "", "", "", "token1", "", "raw1", "", "", "", "", "", ""].map fun id => (0, id))

def restOfRefresh : List (Nat × Env) := Pool.inOrder [0, 0, 0, 0, 0]

def refreshAgain : List (Nat × Env) :=
  drawing (["", "", "", "", "", "r1", "", "", "", "", "", "", "", "", "", "", "", ""].map fun id => (1, id))

def refreshSentTwice : State := State.init plainComponent loggedIn (sentTwice {} { process := 1 } keyedRefresh [.start])

def refreshToRetry : State := Pool.run (exec plainComponent) refreshSentTwice (stoppedRefresh ++ later31)

theorem stopped_refresh_fails :
    (Pool.run (exec plainComponent) refreshSentTwice (stoppedRefresh ++ restOfRefresh)).answer 0 =
        some (some (.ok ⟨refreshAuthenticateResponse, .refresh ⟨"account", "raw1", 1⟩⟩)) ∧
      (∀ d ∈ refreshToRetry.world.records.docs, d.key = "k" ∧ d.isCompleted = false ∧ d.leaseUntil < refreshToRetry.world.clock) ∧
      (Pool.run (exec plainComponent) refreshToRetry refreshAgain).answer 1 =
        some (some (.error (.wrap "find refresh token" errInvalidToken))) ∧
      ¬ Recovers plainComponent (32 * 10 ^ 9) "k" 1 refreshToRetry := by
  have hanswer : (Pool.run (exec plainComponent) refreshToRetry refreshAgain).answer 1 =
      some (some (.error (.wrap "find refresh token" errInvalidToken))) := by decide +kernel
  refine ⟨by decide +kernel, by decide +kernel, hanswer, fun h => ?_⟩
  have halong : Pool.Along (exec plainComponent) (Pool.Alone (Healthy (32 * 10 ^ 9)) 1) refreshToRetry refreshAgain := by
    decide +kernel
  obtain ⟨⟨res, hres⟩, -⟩ := (h refreshAgain halong).2 _ hanswer
  cases hres

end GameServer.UserCenter
