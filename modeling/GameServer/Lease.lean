import GameServer.UserCenterExec
import GameServer.Trace

/-!
# The user center: leases exclude each other

Callers of the idempotency repository, each with a reservation id and a clock
value it has read, in any interleaving of their commands. A record whose lease
runs is left to the caller whose reservation id it holds, and a completed record
to nobody.
-/

namespace GameServer.UserCenter

open Pool (Past Step)

inductive LeaseCall
  | reserve (reservationID : String) (record : Time → IdempotencyRecord)
  | renew (key reservationID : String) (leaseUntil : Time → Time)
  | complete (key reservationID : String) (response : Message)
  | release (key reservationID : String)
  | recoverExpired

inductive LeaseReply
  | reserved (result : Except GoErr (IdempotencyRecord × Bool))
  | done (result : Except GoErr Unit)

namespace LeaseCall

def handler : LeaseCall → Prog Ans LeaseReply
  | .reserve reservationID record => do
    let now : Time ← perform .now
    return .reserved (← UserCenter.reserve { record now with reservationID } now)
  | .renew key reservationID leaseUntil => do
    let now : Time ← perform .now
    return .done (← UserCenter.renew key reservationID (leaseUntil now) now)
  | .complete key reservationID response => do
    let now : Time ← perform .now
    return .done (← perform (.complete key reservationID response now))
  | .release key reservationID => do
    return .done (← perform (.release key reservationID))
  | .recoverExpired => do
    let now : Time ← perform .now
    return .done (← perform (.recoverExpired now))

def reservationID : LeaseCall → Option String
  | .reserve reservationID _ | .renew _ reservationID _ | .complete _ reservationID _ | .release _ reservationID =>
    some reservationID
  | .recoverExpired => none

def isReserve : LeaseCall → Bool
  | .reserve _ _ => true
  | _ => false

def isRelease : LeaseCall → Bool
  | .release _ _ => true
  | _ => false

def Owns (call : LeaseCall) (d : IdempotencyRecord) : Prop := call.reservationID = some d.reservationID

end LeaseCall

abbrev LeaseState := Pool Ans World LeaseReply

def LeaseState.init (w : World) (calls : List LeaseCall) : LeaseState := Pool.start w (calls.map LeaseCall.handler)

structure Exclusive (call : LeaseCall) (w w' : World) : Prop where
  completed : ∀ d ∈ w.records, d.isCompleted → w'.clock < d.expiresAt → d ∈ w'.records
  completes : ∀ d ∈ w.records, d.state = .pending → ∀ d' ∈ w'.records, d'.key = d.key → d'.isCompleted → call.Owns d
  /-- A lease grows by its owner's doing, or, once it has ended, with a new owner. -/
  extended : ∀ d ∈ w.records, d.state = .pending → ∀ d' ∈ w'.records, d'.key = d.key → d.leaseUntil < d'.leaseUntil →
    call.Owns d ∨ (call.isReserve ∧ d.leaseUntil ≤ w'.clock ∧ call.Owns d')
  releases : call.isRelease → ∀ d ∈ w.records, d ∉ w'.records → call.Owns d
  held : ∀ d ∈ w.records, d.state = .pending → w'.clock < d.leaseUntil → w'.clock < d.expiresAt → d ∉ w'.records →
    call.Owns d

structure Granted (call : LeaseCall) (d : IdempotencyRecord) (w w' : World) : Prop where
  owns : call.Owns d
  stored : d ∈ w'.records
  alone : ∀ d₀ ∈ w.records, d₀.key = d.key → d₀.state = .pending → w'.clock < d₀.leaseUntil → call.Owns d₀

namespace Lease

variable {c : DomainAuthComponent} {i : Nat} {e : Env} {w w' : World} {cmd : Cmd} {call : LeaseCall}

/-! ## What one command does -/

def Proper (call : LeaseCall) (clock : Time) : Cmd → Prop
  | .now | .findRecord _ _ | .insertRecord _ => True
  | .deleteStale _ now => now ≤ clock ∧ call.isRelease = false
  | .claim _ _ now newID _ => now ≤ clock ∧ call.isReserve ∧ call.reservationID = some newID
  | .complete _ reservationID _ _ | .renew _ reservationID _ _ | .release _ reservationID =>
    call.reservationID = some reservationID
  | .recoverExpired now => now ≤ clock ∧ call.isRelease = false
  | _ => False

theorem Proper.mono {t t' : Time} (h : Proper call t cmd) (hle : t ≤ t') : Proper call t' cmd := by
  cases cmd with
  | deleteStale key now => exact ⟨Nat.le_trans h.1 hle, h.2⟩
  | claim key rid now newID leaseUntil => exact ⟨Nat.le_trans h.1 hle, h.2⟩
  | recoverExpired now => exact ⟨Nat.le_trans h.1 hle, h.2⟩
  | _ => exact h

theorem eq_of_key {d d' : IdempotencyRecord} (hd : d ∈ w.records) (hd' : d' ∈ w.records) (h : d'.key = d.key) :
    d' = d :=
  Coll.eq_of_clash hd' hd (by simp [idempotencyIndexes, h])

theorem isCompleted_of_pending {d : IdempotencyRecord} (h : d.state = .pending) : ¬ d.isCompleted := by
  simp [IdempotencyRecord.isCompleted, h]

theorem exclusive_of_drop (hsub : ∀ d ∈ w'.records, d ∈ w.records)
    (hdrop : ∀ d ∈ w.records, d ∉ w'.records → d.state = .pending ∧ call.Owns d ∨ call.isRelease = false ∧
      (d.expiresAt ≤ w'.clock ∨ d.state = .pending ∧ d.leaseUntil ≤ w'.clock)) : Exclusive call w w' := by
  refine ⟨fun d hd hc hlt => ?_, fun d hd hp d' hd' hk hc => ?_, fun d hd hp d' hd' hk hlt => ?_, fun hr d hd hn => ?_,
    fun d hd hp hl he hn => ?_⟩
  · by_contra hn
    have := hdrop d hd hn
    have hp : d.state ≠ .pending := fun hp => isCompleted_of_pending hp hc
    simp only [hp, false_and, false_or, or_false] at this
    exact Nat.not_lt.mpr this.2 hlt
  · rw [eq_of_key hd (hsub d' hd') hk] at hc
    exact absurd hc (isCompleted_of_pending hp)
  · rw [eq_of_key hd (hsub d' hd') hk] at hlt
    exact absurd hlt (Nat.lt_irrefl _)
  · have := hdrop d hd hn
    simp only [hr, Bool.true_eq_false, false_and, or_false] at this
    exact this.2
  · have := hdrop d hd hn
    simp only [Nat.not_le.mpr hl, Nat.not_le.mpr he, and_false, or_false] at this
    exact this.2

theorem exclusive_of_records (h : w'.records = w.records) : Exclusive call w w' :=
  exclusive_of_drop (fun _ hd => h ▸ hd) fun _ hd hn => absurd (h ▸ hd) hn

theorem exclusive_of_insert {d : IdempotencyRecord} {records : Coll idempotencyIndexes}
    (h : w.records.insertOne d = some records) (hw : w'.records = records) : Exclusive call w w' := by
  have hfresh : ∀ x ∈ w.records, d.key ≠ x.key := by
    intro x hx heq
    have := (Coll.insertOne_eq_some h).2 x hx
    simp [idempotencyIndexes, Index.on, heq] at this
  have hkept : ∀ x ∈ w.records, x ∈ w'.records := fun x hx => hw ▸ (Coll.mem_insertOne h x).mpr (.inr hx)
  have hold : ∀ x ∈ w.records, ∀ x' ∈ w'.records, x'.key = x.key → x' = x := by
    intro x hx x' hx' hk
    rcases (Coll.mem_insertOne h x').mp (hw ▸ hx') with rfl | hx'
    · exact absurd hk (hfresh x hx)
    · exact eq_of_key hx hx' hk
  refine ⟨fun x hx _ _ => hkept x hx, fun x hx hp x' hx' hk hc => ?_, fun x hx hp x' hx' hk hlt => ?_,
    fun _ x hx hn => absurd (hkept x hx) hn, fun x hx _ _ _ hn => absurd (hkept x hx) hn⟩
  · rw [hold x hx x' hx' hk] at hc
    exact absurd hc (isCompleted_of_pending hp)
  · rw [hold x hx x' hx' hk] at hlt
    exact absurd hlt (Nat.lt_irrefl _)

theorem exclusive_of_update {p : IdempotencyRecord → Bool} {d new : IdempotencyRecord} (hd : d ∈ w.records)
    (hpd : p d = true) (hpins : Coll.Pins idempotencyIndexes p) (hpending : d.state = .pending)
    (hmem : ∀ x, x ∈ w'.records ↔ (x ∈ w.records ∧ p x = false) ∨ x = new) (hkey : new.key = d.key)
    (hwho : call.Owns d ∨ call.isReserve ∧ d.leaseUntil ≤ w'.clock ∧ call.Owns new ∧ new.state = .pending) :
    Exclusive call w w' := by
  have honly : ∀ x ∈ w.records, x ∈ w'.records ∨ x = d := by
    intro x hx
    by_cases hpx : p x = true
    · exact .inr (Coll.eq_of_clash hx hd (hpins x d hpx hpd))
    · exact .inl ((hmem x).mpr (.inl ⟨hx, by simpa using hpx⟩))
  have hnext : ∀ x ∈ w.records, ∀ x' ∈ w'.records, x'.key = x.key → x' = x ∨ x = d ∧ x' = new := by
    intro x hx x' hx' hk
    rcases (hmem x').mp hx' with ⟨hx', _⟩ | rfl
    · exact .inl (eq_of_key hx hx' hk)
    · exact .inr ⟨eq_of_key hd hx (hk.symm.trans hkey), rfl⟩
  refine ⟨fun x hx hc _ => ?_, fun x hx hp x' hx' hk hc => ?_, fun x hx hp x' hx' hk hlt => ?_, fun hr x hx hn => ?_,
    fun x hx _ hl _ hn => ?_⟩
  · rcases honly x hx with h | rfl
    · exact h
    · exact absurd hc (isCompleted_of_pending hpending)
  · rcases hnext x hx x' hx' hk with rfl | ⟨rfl, rfl⟩
    · exact absurd hc (isCompleted_of_pending hp)
    · exact hwho.resolve_right fun h => isCompleted_of_pending h.2.2.2 hc
  · rcases hnext x hx x' hx' hk with rfl | ⟨rfl, rfl⟩
    · exact absurd hlt (Nat.lt_irrefl _)
    · exact hwho.imp_right fun h => ⟨h.1, h.2.1, h.2.2.1⟩
  · obtain rfl := (honly x hx).resolve_left hn
    refine hwho.resolve_right fun h => ?_
    cases call <;> simp [LeaseCall.isRelease, LeaseCall.isReserve] at hr h
  · obtain rfl := (honly x hx).resolve_left hn
    exact hwho.resolve_right fun h => Nat.not_lt.mpr h.2.1 hl

theorem not_mem_deleteOne {p : IdempotencyRecord → Bool} {d : IdempotencyRecord} (hd : d ∈ w.records)
    (h : d ∉ w.records.deleteOne p) : p d = true := by
  by_contra hp
  exact h ((Coll.mem_deleteOne_of_neg (by simpa using hp)).mpr hd)

theorem owned_of_filter {key reservationID : String} {now : Time} {d : IdempotencyRecord}
    (h : ownedFilter key reservationID now d = true) : d.state = .pending ∧ some reservationID = some d.reservationID := by
  simp only [ownedFilter, Bool.and_eq_true, decide_eq_true_eq, beq_iff_eq] at h
  exact ⟨h.1.1.2, congrArg some h.1.2.symm⟩

theorem exclusive_answer (hclock : w.clock = w'.clock) (hp : Proper call w.clock cmd) {r : Ans cmd}
    (h : w.answer c i cmd e = some (r, w')) : Exclusive call w w' := by
  rw [hclock] at hp
  cases cmd with
  | now | findRecord _ _ => exact exclusive_of_records (answer_sparesRecords rfl h)
  | insertRecord d =>
    simp only [World.answer] at h
    split at h
    · rename_i records hins
      cases h
      exact exclusive_of_insert hins rfl
    · cases h
      exact exclusive_of_records rfl
  | deleteStale key now =>
    cases h
    refine exclusive_of_drop (fun d hd => Coll.mem_of_mem_deleteOne hd) fun d hd hn => .inr ⟨hp.2, ?_⟩
    have := not_mem_deleteOne hd hn
    simp only [staleFilter, Bool.and_eq_true, Bool.or_eq_true, decide_eq_true_eq, beq_iff_eq] at this
    exact this.2.imp (Nat.le_trans · hp.1) fun h => ⟨h.1, Nat.le_trans h.2 hp.1⟩
  | claim key rid now newID leaseUntil =>
    obtain ⟨o, w₁, hclaim⟩ : ∃ o w₁, w.claim key rid now newID leaseUntil = (o, w₁) := ⟨_, _, rfl⟩
    simp only [World.answer, hclaim] at h
    cases h
    rcases claim_cases hclaim with ⟨_, rfl⟩ | ⟨d, hd, hf, _, _, hmem⟩
    · exact exclusive_of_records rfl
    · have hf' := hf
      simp only [claimFilter, Bool.and_eq_true, decide_eq_true_eq, beq_iff_eq] at hf'
      exact exclusive_of_update hd hf (claimFilter_pins key rid now) hf'.1.1.2 hmem rfl
        (.inr ⟨hp.2.1, Nat.le_trans hf'.2 hp.1, hp.2.2, hf'.1.1.2⟩)
  | complete key rid response now =>
    rcases commit_cases (Option.some.inj h) with ⟨_, _, _, rfl⟩ | ⟨hok, _⟩
    · exact exclusive_of_records rfl
    · obtain ⟨d, hd, hf, _, hmem⟩ := complete_ok hok
      obtain ⟨hpending, hrid⟩ := owned_of_filter hf
      exact exclusive_of_update hd hf (ownedFilter_pins key rid now) hpending hmem rfl (.inl (hp.trans hrid))
  | renew key rid leaseUntil now =>
    rcases commit_cases (Option.some.inj h) with ⟨_, _, _, rfl⟩ | ⟨hok, _⟩
    · exact exclusive_of_records rfl
    · obtain ⟨d, hd, hf, _, hmem⟩ := renew_ok hok
      obtain ⟨hpending, hrid⟩ := owned_of_filter hf
      exact exclusive_of_update hd hf (ownedFilter_pins key rid now) hpending hmem rfl (.inl (hp.trans hrid))
  | release key rid =>
    cases h
    refine exclusive_of_drop (fun d hd => Coll.mem_of_mem_deleteOne hd) fun d hd hn => .inl ?_
    have := not_mem_deleteOne hd hn
    simp only [releaseFilter, Bool.and_eq_true, beq_iff_eq] at this
    rw [LeaseCall.Owns, this.2]
    exact ⟨this.1.2, hp⟩
  | recoverExpired now =>
    cases h
    refine exclusive_of_drop (fun d hd => (Coll.mem_deleteMany.mp hd).1) fun d hd hn => .inr ⟨hp.2, ?_⟩
    have : recoverFilter now d = true := by
      by_contra hf
      exact hn (Coll.mem_deleteMany.mpr ⟨hd, by simpa using hf⟩)
    simp only [recoverFilter, Bool.and_eq_true, Bool.or_eq_true, decide_eq_true_eq, beq_iff_eq] at this
    exact this.2.symm.imp (Nat.le_trans · hp.1) fun h => ⟨this.1, Nat.le_trans h hp.1⟩
  | _ => exact hp.elim

theorem exclusive_exec (hp : Proper call w.clock cmd) {r : Ans cmd} (h : exec c i e w cmd = some (r, w')) :
    Exclusive call w w' := by
  have hclock := exec_clock h
  rcases exec_effect h with rfl | ⟨r₀, hx⟩
  · exact exclusive_of_records rfl
  · obtain ⟨h₁, h₂, h₃, h₄, h₅⟩ := exclusive_answer (w := w.tick e.delay) hclock.symm (hp.mono (Nat.le_add_right ..)) hx
    exact ⟨h₁, h₂, h₃, h₄, h₅⟩

/-! ## What a caller knows -/

section
variable (c) (calls : List LeaseCall)

def Inv (p : Past World) : Prop := ∀ m ∈ p.2, ∀ call, calls[m.pid]? = some call → Exclusive call m.old m.new

def Rely (p p' : Past World) : Prop := p.1.clock ≤ p'.1.clock

abbrev Sound {α : Type} (i : Nat) (post : Past World → α → Prop) (prog : Prog Ans α) (p : Past World) : Prop :=
  Pool.Safe (Pool.record (exec c)) (fun _ _ _ _ => True) (Inv calls) (fun _ => Rely) i post prog p

def Fair (call : LeaseCall) (p : Past World) (r : Except GoErr (IdempotencyRecord × Bool)) : Prop :=
  ∀ d, r = .ok (d, true) → ∃ m log, p.2 = m :: log ∧ Granted call d m.old m.new

theorem fair_error {p : Past World} {err : GoErr} : Fair call p (.error err) := fun _ h => (nomatch h)

theorem fair_of_not {p : Past World} {d : IdempotencyRecord} : Fair call p (.ok (d, false)) := fun _ h => (nomatch h)

end

variable {calls : List LeaseCall} {α : Type} {p₀ : Past World} {post : Past World → α → Prop} {now : Time}

theorem sound_call {k : Ans cmd → Prog Ans α} (hcall : calls[i]? = some call) (hnow : now ≤ p₀.1.clock)
    (hp : ∀ t, now ≤ t → Proper call t cmd)
    (h : ∀ e (p : Past World) r w, exec c i e p.1 cmd = some (r, w) → now ≤ w.clock →
      Sound c calls i post (k r) (w, ⟨i, p.1, w⟩ :: p.2)) : Sound c calls i post (.call cmd k) p₀ := by
  intro e p r p' hr hi _ hx
  obtain ⟨w, hexec, rfl⟩ := Pool.record_eq_some hx
  have hle : p.1.clock ≤ w.clock := by
    rw [exec_clock hexec]
    exact Nat.le_add_right ..
  have hnow := Nat.le_trans hnow hr
  refine ⟨List.forall_mem_cons.mpr ⟨fun call' hcall' => ?_, hi⟩, fun _ _ => hle,
    h e p r w hexec (Nat.le_trans hnow hle)⟩
  obtain rfl := Option.some.inj (hcall.symm.trans hcall')
  exact exclusive_exec (hp _ hnow) hexec

theorem sound_now {k : Time → Prog Ans α} (hcall : calls[i]? = some call)
    (h : ∀ now p, now ≤ p.1.clock → Sound c calls i post (k now) p) : Sound c calls i post (.call .now k) p₀ := by
  refine sound_call hcall (Nat.zero_le _) (fun _ _ => trivial) fun e p r w hx _ => h r _ ?_
  rcases exec_cases hx with hx | ⟨_, hr, _⟩
  · cases hx
    exact Nat.le_refl _
  · cases hr

/-! ## `Reserve` -/

theorem granted_insert {d : IdempotencyRecord} (hd : call.Owns d) (h : exec c i e w (.insertRecord d) = some (.ok, w')) :
    Granted call d w w' := by
  rcases exec_cases h with hx | ⟨_, hr, _⟩
  · simp only [World.answer] at hx
    split at hx
    · rename_i records hins
      cases hx
      refine ⟨hd, (Coll.mem_insertOne hins d).mpr (.inl rfl), fun d₀ hd₀ hk => ?_⟩
      have := (Coll.insertOne_eq_some hins).2 d₀ hd₀
      simp [idempotencyIndexes, Index.on, hk] at this
    · cases hx
  · cases hr

theorem granted_claim {key rid newID : String} {leaseUntil : Time} {d : IdempotencyRecord} (hnow : now ≤ w'.clock)
    (hid : call.reservationID = some newID)
    (h : exec c i e w (.claim key rid now newID leaseUntil) = some (.ok (some d), w')) : Granted call d w w' := by
  rcases exec_cases h with hx | ⟨_, hr, _⟩
  · obtain ⟨o, w₁, hclaim⟩ : ∃ o w₁, (w.tick e.delay).claim key rid now newID leaseUntil = (o, w₁) := ⟨_, _, rfl⟩
    simp only [World.answer, hclaim] at hx
    cases hx
    rcases claim_cases hclaim with ⟨h, _⟩ | ⟨d₁, hd₁, hf, heq, _, hmem⟩
    · cases h
    · cases heq
      refine ⟨hid, (hmem _).mpr (.inr rfl), fun d₀ hd₀ hk _ hlt => ?_⟩
      -- the record it took the place of is the only one of its key, and its lease had ended
      obtain rfl := eq_of_key hd₁ hd₀ hk
      simp only [claimFilter, Bool.and_eq_true, decide_eq_true_eq] at hf
      exact absurd (Nat.le_trans hf.2 hnow) (Nat.not_le.mpr hlt)
  · cases hr

theorem sound_contend {record current : IdempotencyRecord} (hcall : calls[i]? = some call) (hreserve : call.isReserve)
    (hid : call.Owns record) (hnow : now ≤ p₀.1.clock) :
    Sound c calls i (Fair call) (contend record now current) p₀ := by
  unfold contend
  split
  · exact fair_error
  split
  · exact fair_of_not
  split
  · exact fair_of_not
  simp only [perform, Prog.perform_bind, Prog.pure_eq]
  refine sound_call hcall hnow (fun t ht => ⟨ht, hreserve, hid⟩) fun e p r w hx hnow => ?_
  cases r with
  | error err => exact fair_error
  | ok o =>
    cases o with
    | some claimed =>
      intro d hd
      cases hd
      exact ⟨_, _, rfl, granted_claim hnow hid hx⟩
    | none =>
      refine sound_call hcall hnow (fun _ _ => trivial) fun e p r w _ _ => ?_
      cases r with
      | error err => exact fair_error
      | ok latest => exact fair_of_not

theorem sound_replaceStale {record : IdempotencyRecord} {err : GoErr} (hcall : calls[i]? = some call)
    (hreserve : call.isReserve) (hid : call.Owns record) (hnow : now ≤ p₀.1.clock) :
    Sound c calls i (Fair call) (replaceStale record now err) p₀ := by
  have hrelease : call.isRelease = false := by cases call <;> first | rfl | cases hreserve
  unfold replaceStale
  simp only [perform, Prog.perform_bind]
  refine sound_call hcall hnow (fun t ht => ⟨ht, hrelease⟩) fun e p r w hx hnow => ?_
  cases r with
  | error err => exact fair_error
  | ok deleted =>
    cases deleted with
    | false => exact fair_error
    | true =>
      refine sound_call hcall hnow (fun _ _ => trivial) fun e p r w hx hnow => ?_
      cases r with
      | ok =>
        intro d hd
        cases hd
        exact ⟨_, _, rfl, granted_insert hid hx⟩
      | failed err => exact fair_error
      | duplicate =>
        refine sound_call hcall hnow (fun _ _ => trivial) fun e p r w hx hnow => ?_
        cases r with
        | error err => exact fair_error
        | ok current => exact sound_contend hcall hreserve hid hnow

theorem sound_reserve {record : IdempotencyRecord} (hcall : calls[i]? = some call) (hreserve : call.isReserve)
    (hid : call.Owns record) (hnow : now ≤ p₀.1.clock) : Sound c calls i (Fair call) (reserve record now) p₀ := by
  unfold reserve
  split
  · exact fair_error
  split
  · exact fair_error
  simp only [perform, Prog.perform_bind, Prog.pure_eq]
  refine sound_call hcall hnow (fun _ _ => trivial) fun e p today w hx hnow => ?_
  split
  · exact fair_error
  refine sound_call hcall hnow (fun _ _ => trivial) fun e p r w hx hnow => ?_
  cases r with
  | ok =>
    intro d hd
    cases hd
    exact ⟨_, _, rfl, granted_insert hid hx⟩
  | failed err => exact fair_error
  | duplicate =>
    refine sound_call hcall hnow (fun _ _ => trivial) fun e p r w hx hnow => ?_
    cases r with
    | ok current => exact sound_contend hcall hreserve hid hnow
    | error err =>
      dsimp only
      split
      · exact sound_replaceStale hcall hreserve hid hnow
      · exact fair_error

/-! ## Runs -/

def Answered (call : LeaseCall) (p : Past World) (r : LeaseReply) : Prop :=
  ∀ d, r = .reserved (.ok (d, true)) → ∃ m log, p.2 = m :: log ∧ Granted call d m.old m.new

theorem answered_done {p : Past World} {r : Except GoErr Unit} : Answered call p (.done r) := fun _ h => (nomatch h)

theorem sound_handler (hcall : calls[i]? = some call) : Sound c calls i (Answered call) call.handler p₀ := by
  cases call with
  | reserve rid record =>
    simp only [LeaseCall.handler, perform, Prog.perform_bind, Prog.pure_eq]
    refine sound_now hcall fun now p hnow => ?_
    have hreserve : Sound c calls i _ (reserve { record now with reservationID := rid } now) p :=
      sound_reserve hcall rfl rfl hnow
    refine Pool.Safe.bind (hreserve.mono fun p r hr => ?_)
    intro d hd
    cases hd
    exact hr d rfl
  | renew key rid leaseUntil =>
    simp only [LeaseCall.handler, perform, Prog.perform_bind, Prog.pure_eq, renew]
    refine sound_now hcall fun now p hnow => ?_
    split
    · exact answered_done
    · exact sound_call hcall hnow (fun _ _ => rfl) fun _ _ _ _ _ _ => answered_done
  | complete key rid response =>
    simp only [LeaseCall.handler, perform, Prog.perform_bind, Prog.pure_eq]
    refine sound_now hcall fun now p hnow => ?_
    exact sound_call hcall hnow (fun _ _ => rfl) fun _ _ _ _ _ _ => answered_done
  | release key rid =>
    simp only [LeaseCall.handler, perform, Prog.perform_bind, Prog.pure_eq]
    exact sound_call hcall (Nat.zero_le _) (fun _ _ => rfl) fun _ _ _ _ _ _ => answered_done
  | recoverExpired =>
    simp only [LeaseCall.handler, perform, Prog.perform_bind, Prog.pure_eq]
    refine sound_now hcall fun now p hnow => ?_
    exact sound_call hcall hnow (fun t ht => ⟨ht, rfl⟩) fun _ _ _ _ _ _ => answered_done

theorem Rely.refl (p : Past World) : Rely p p := Nat.le_refl p.1.clock

theorem Rely.trans {p p' p'' : Past World} (h : Rely p p') (h' : Rely p' p'') : Rely p p'' := Nat.le_trans h h'

theorem inv_start (w : World) (calls : List LeaseCall) : Inv calls (w, []) := fun _ hm => (nomatch hm)

theorem sound_init (w : World) (calls : List LeaseCall) : ∀ i prog, (calls.map LeaseCall.handler)[i]? = some prog →
    Sound c calls i (fun p r => ∀ call, calls[i]? = some call → Answered call p r) prog (w, []) := by
  refine Pool.forall_map fun i call hcall => ?_
  refine (sound_handler hcall).mono fun p r hr call' hcall' => ?_
  obtain rfl := Option.some.inj (hcall.symm.trans hcall')
  exact hr

end Lease

/-- In every interleaving, a step of a call changes no completed record that has
not expired, completes, extends or releases only what the call owns, and grants
ownership only where no lease of another runs. -/
theorem lease_exclusion (c : DomainAuthComponent) (w₀ : World) (calls : List LeaseCall) (before : List (Nat × Env))
    (a : Nat × Env) (call : LeaseCall) (hcall : calls[a.1]? = some call) :
    let s := Pool.run (exec c) (LeaseState.init w₀ calls) before
    let s' := Pool.step (exec c) s a
    Exclusive call s.world s'.world ∧
      ∀ d, s.answer a.1 = none → s'.answer a.1 = some (.reserved (.ok (d, true))) → Granted call d s.world s'.world := by
  intro s s'
  rcases Pool.step_cases (exec c) s a with heq | ⟨cmd, k, r, w, hp, hx, heq⟩
  · have hstay : s' = s := heq
    rw [hstay]
    refine ⟨Lease.exclusive_of_records rfl, fun d hnone hsome => ?_⟩
    rw [hnone] at hsome
    cases hsome
  · have hworld : s'.world = w := congrArg Pool.world heq
    have hprocs : s'.procs[a.1]? = some (k r) := (Pool.step_of_exec (exec c) hp hx).2
    obtain ⟨log, hinv, hsafe⟩ := Pool.safe_next (fun _ => Lease.Rely.refl) (fun _ _ _ _ => Lease.Rely.trans)
      (Lease.inv_start w₀ calls) (Lease.sound_init w₀ calls) (Pool.along_any _ _) hp hx
    rw [hworld]
    refine ⟨hinv _ (List.mem_cons_self ..) call hcall, fun d _ hsome => ?_⟩
    rw [Option.some.inj (hprocs.symm.trans (Pool.answer_eq_some hsome))] at hsafe
    obtain ⟨m, log', hlog, hgranted⟩ := hsafe call hcall d rfl
    obtain rfl := (List.cons.inj hlog).1
    exact hgranted

def leaseRecord (now : Time) : IdempotencyRecord where
  key := "k"
  operation := .guestAuthenticate
  requestHash := "h"
  state := .pending
  reservationID := ""
  leaseUntil := now + 10
  createdAt := now
  expiresAt := now + 100

def rivals : List LeaseCall := [.reserve "a" leaseRecord, .reserve "b" leaseRecord]

def rivalMoves : List (Nat × Env) := [(0, {}), (0, {}), (0, {}), (1, { delay := 20 }), (1, {}), (1, {}), (1, {})]

theorem lease_passes_on :
    let s := Pool.run (exec plainComponent) (LeaseState.init (.init 1) rivals) rivalMoves
    let s' := Pool.step (exec plainComponent) s (1, {})
    let d := { leaseRecord 1 with reservationID := "b", leaseUntil := 31 }
    s'.answer 1 = some (.reserved (.ok (d, true))) ∧ Granted (.reserve "b" leaseRecord) d s.world s'.world :=
  ⟨rfl, (lease_exclusion plainComponent (.init 1) rivals rivalMoves (1, {}) (.reserve "b" leaseRecord) rfl).2 _ rfl rfl⟩

end GameServer.UserCenter
