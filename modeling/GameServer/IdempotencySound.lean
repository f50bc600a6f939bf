import GameServer.IdempotencyRules
import GameServer.Trace
import Mathlib.Data.List.Induction

/-!
# The user center: calls with one key agree

A record that is completed stays as it is until it expires, and a call is
answered with the response of a completed record, its own or another's. So the
answers to calls with one key agree for as long as no completed record of that
key has expired, and they are what the one `Complete` stored.
-/

namespace GameServer.UserCenter

open Pool (Past Step Visited)

namespace Record

attribute [local irreducible] trimSpace

/-! ## What commands do to completed records -/

structure Moves (w w' : World) : Prop where
  clock : w.clock ≤ w'.clock
  fresh : ∀ d ∈ w'.records, d.isCompleted → d ∈ w.records ∨
    (d.response.isSome ∧ ∃ d₀ ∈ w.records, d₀.key = d.key ∧ d₀.state = .pending)
  kept : ∀ d ∈ w.records, d.isCompleted → w'.clock < d.expiresAt → d ∈ w'.records

def Allowed (clock : Time) : Cmd → Prop
  | .insertRecord d => d.state = .pending
  | .deleteStale _ now => now ≤ clock
  | _ => True

variable {c : DomainAuthComponent} {i : Nat} {e : Env} {w w' : World} {cmd : Cmd}

theorem isCompleted_iff {d : IdempotencyRecord} : d.isCompleted = true ↔ d.state = .completed := by
  simp [IdempotencyRecord.isCompleted]

theorem moves_of_records (hclock : w.clock ≤ w'.clock) (h : w'.records = w.records) : Moves w w' :=
  ⟨hclock, fun _ hd _ => .inl (h ▸ hd), fun _ hd _ _ => h ▸ hd⟩

theorem moves_of_drop (hclock : w.clock ≤ w'.clock) (hsub : ∀ d ∈ w'.records, d ∈ w.records)
    (hkept : ∀ d ∈ w.records, d.isCompleted → w'.clock < d.expiresAt → d ∈ w'.records) : Moves w w' :=
  ⟨hclock, fun d hd _ => .inl (hsub d hd), hkept⟩

theorem moves_of_update {p : IdempotencyRecord → Bool} {d new : IdempotencyRecord} (hclock : w.clock ≤ w'.clock)
    (hd : d ∈ w.records) (hpending : ∀ x, p x = true → x.state = .pending) (hpd : p d = true)
    (hmem : ∀ x, x ∈ w'.records ↔ (x ∈ w.records ∧ p x = false) ∨ x = new) (hkey : new.key = d.key)
    (hnew : new.isCompleted → new.response.isSome) : Moves w w' := by
  refine ⟨hclock, fun x hx hc => ?_, fun x hx hc _ => (hmem x).mpr (.inl ⟨hx, ?_⟩)⟩
  · rcases (hmem x).mp hx with ⟨hx, _⟩ | rfl
    · exact .inl hx
    · exact .inr ⟨hnew hc, d, hd, hkey.symm, hpending d hpd⟩
  · by_contra hpx
    rw [Bool.not_eq_false] at hpx
    rw [isCompleted_iff, hpending x hpx] at hc
    cases hc

theorem pending_of_ownedFilter {key reservationID : String} {now : Time} {d : IdempotencyRecord}
    (h : ownedFilter key reservationID now d = true) : d.state = .pending := by
  simp only [ownedFilter, Bool.and_eq_true, beq_iff_eq] at h
  exact h.1.1.2

theorem pending_of_claimFilter {key reservationID : String} {now : Time} {d : IdempotencyRecord}
    (h : claimFilter key reservationID now d = true) : d.state = .pending := by
  simp only [claimFilter, Bool.and_eq_true, beq_iff_eq] at h
  exact h.1.1.2

theorem moves_answer (hclock : w.clock = w'.clock) (ha : Allowed w.clock cmd) {r : Ans cmd}
    (h : w.answer c i cmd e = some (r, w')) : Moves w w' := by
  have hle : w.clock ≤ w'.clock := Nat.le_of_eq hclock
  cases cmd with
  | insertRecord d =>
    simp only [World.answer] at h
    split at h
    · rename_i records hins
      cases h
      refine ⟨hle, fun x hx hc => ?_, fun x hx _ _ => (Coll.mem_insertOne hins x).mpr (.inr hx)⟩
      rcases (Coll.mem_insertOne hins x).mp hx with rfl | hx
      · rw [isCompleted_iff, show x.state = .pending from ha] at hc
        cases hc
      · exact .inl hx
    · cases h
      exact moves_of_records hle rfl
  | deleteStale key now =>
    cases h
    refine moves_of_drop hle (fun d hd => Coll.mem_of_mem_deleteOne hd) fun d hd hc hlt => ?_
    have hfilter : staleFilter key now d = false := by
      have hlate : now < d.expiresAt := Nat.lt_of_le_of_lt ha hlt
      simp [staleFilter, isCompleted_iff.mp hc, hlate]
    exact (Coll.mem_deleteOne_of_neg hfilter).mpr hd
  | claim key reservationID now newID leaseUntil =>
    obtain ⟨o, w₁, hclaim⟩ : ∃ o w₁, w.claim key reservationID now newID leaseUntil = (o, w₁) := ⟨_, _, rfl⟩
    simp only [World.answer, hclaim] at h
    cases h
    rcases claim_cases hclaim with ⟨_, rfl⟩ | ⟨d, hd, hp, _, _, hmem⟩
    · exact moves_of_records hle rfl
    · refine moves_of_update hle hd (fun x => pending_of_claimFilter) hp hmem rfl fun hc => ?_
      have hpending : d.state = .completed := isCompleted_iff.mp hc
      rw [pending_of_claimFilter hp] at hpending
      cases hpending
  | complete key reservationID response now =>
    rcases commit_cases (Option.some.inj h) with ⟨_, _, _, rfl⟩ | ⟨hok, _⟩
    · exact moves_of_records hle rfl
    · obtain ⟨d, hd, hp, _, hmem⟩ := complete_ok hok
      exact moves_of_update hle hd (fun x => pending_of_ownedFilter) hp hmem rfl fun _ => rfl
  | renew key reservationID leaseUntil now =>
    rcases commit_cases (Option.some.inj h) with ⟨_, _, _, rfl⟩ | ⟨hok, _⟩
    · exact moves_of_records hle rfl
    · obtain ⟨d, hd, hp, _, hmem⟩ := renew_ok hok
      refine moves_of_update hle hd (fun x => pending_of_ownedFilter) hp hmem rfl fun hc => ?_
      have hpending : d.state = .completed := isCompleted_iff.mp hc
      rw [pending_of_ownedFilter hp] at hpending
      cases hpending
  | release key reservationID =>
    cases h
    refine moves_of_drop hle (fun d hd => Coll.mem_of_mem_deleteOne hd) fun d hd hc _ => ?_
    have hfilter : releaseFilter key reservationID d = false := by simp [releaseFilter, isCompleted_iff.mp hc]
    exact (Coll.mem_deleteOne_of_neg hfilter).mpr hd
  | recoverExpired now =>
    cases h
    refine moves_of_drop hle (fun d hd => (Coll.mem_deleteMany.mp hd).1) fun d hd hc _ => ?_
    exact Coll.mem_deleteMany.mpr ⟨hd, by simp [recoverFilter, isCompleted_iff.mp hc]⟩
  | expireRecord key =>
    cases h
    refine moves_of_drop hle (fun d hd => Coll.mem_of_mem_deleteOne hd) fun d hd _ hlt => ?_
    exact (Coll.mem_deleteOne_of_neg (by simp [Nat.not_le.mpr hlt])).mpr hd
  | _ => exact moves_of_records hle (answer_sparesRecords rfl h)

theorem Allowed.mono {t t' : Time} (h : Allowed t cmd) (hle : t ≤ t') : Allowed t' cmd := by
  cases cmd with
  | insertRecord d => exact h
  | deleteStale key now => exact Nat.le_trans h hle
  | _ => trivial

theorem moves_exec (ha : Allowed w.clock cmd) {r : Ans cmd} (h : exec c i e w cmd = some (r, w')) : Moves w w' := by
  have hclock := exec_clock h
  have hle : w.clock ≤ w.clock + e.delay := Nat.le_add_right ..
  rcases exec_effect h with rfl | ⟨r₀, hx⟩
  · exact moves_of_records hle rfl
  · obtain ⟨h₁, h₂, h₃⟩ := moves_answer (w := w.tick e.delay) hclock.symm (ha.mono hle) hx
    exact ⟨Nat.le_trans hle h₁, h₂, h₃⟩

/-! ## Invariant -/

def Seen (d : IdempotencyRecord) (p : Past World) : Prop := ∃ u, Visited p u ∧ d ∈ u.records

structure Inv (p : Past World) : Prop where
  response : ∀ d, Seen d p → d.isCompleted → d.response.isSome
  kept : ∀ d, Seen d p → d.isCompleted → p.1.clock < d.expiresAt → d ∈ p.1.records
  origin : ∀ d, Seen d p → d.isCompleted →
    ∃ m ∈ p.2, d ∈ m.new.records ∧ ∃ d₀ ∈ m.old.records, d₀.key = d.key ∧ d₀.state = .pending

structure Rely (p p' : Past World) : Prop where
  visited : ∀ u, Visited p u → Visited p' u
  clock : p.1.clock ≤ p'.1.clock

theorem Rely.refl (p : Past World) : Rely p p := ⟨fun _ h => h, Nat.le_refl _⟩

theorem Rely.trans {p p' p'' : Past World} (h : Rely p p') (h' : Rely p' p'') : Rely p p'' :=
  ⟨fun u hu => h'.visited u (h.visited u hu), Nat.le_trans h.clock h'.clock⟩

theorem Seen.rely {p p' : Past World} {d : IdempotencyRecord} (h : Seen d p) (hr : Rely p p') : Seen d p' := by
  obtain ⟨u, hu, hd⟩ := h
  exact ⟨u, hr.visited u hu, hd⟩

theorem Moves.rely {p : Past World} (hm : Moves p.1 w) : Rely p (w, ⟨i, p.1, w⟩ :: p.2) :=
  ⟨fun _ hu => hu.push i w, hm.clock⟩

theorem seen_step {p : Past World} {d : IdempotencyRecord} (h : Seen d (w, ⟨i, p.1, w⟩ :: p.2)) :
    d ∈ w.records ∨ Seen d p := by
  obtain ⟨u, hu, hd⟩ := h
  rcases Pool.visited_step hu with rfl | hu
  · exact .inl hd
  · exact .inr ⟨u, hu, hd⟩

theorem Moves.inv {p : Past World} (hi : Inv p) (hm : Moves p.1 w) : Inv (w, ⟨i, p.1, w⟩ :: p.2) := by
  have hnow : ∀ d ∈ p.1.records, Seen d p := fun d hd => ⟨_, .inl rfl, hd⟩
  have horigin : ∀ d, Seen d p → d.isCompleted → ∃ m ∈ (⟨i, p.1, w⟩ :: p.2 : List (Step World)),
      d ∈ m.new.records ∧ ∃ d₀ ∈ m.old.records, d₀.key = d.key ∧ d₀.state = .pending := by
    intro d hd hc
    obtain ⟨m, hm, h⟩ := hi.origin d hd hc
    exact ⟨m, List.mem_cons_of_mem _ hm, h⟩
  refine ⟨fun d hd hc => ?_, fun d hd hc hlt => ?_, fun d hd hc => ?_⟩
  · rcases seen_step hd with hd | hd
    · rcases hm.fresh d hd hc with hd | ⟨hs, _⟩
      · exact hi.response d (hnow d hd) hc
      · exact hs
    · exact hi.response d hd hc
  · rcases seen_step hd with hd | hd
    · exact hd
    · exact hm.kept d (hi.kept d hd hc (Nat.lt_of_le_of_lt hm.clock hlt)) hc hlt
  · rcases seen_step hd with hd | hd
    · rcases hm.fresh d hd hc with hd | ⟨_, hold⟩
      · exact horigin d (hnow d hd) hc
      · exact ⟨_, List.mem_cons_self .., hd, hold⟩
    · exact horigin d hd hc

/-! ## What a handler knows -/

def Answered (key : String) (message : Message) (p : Past World) : Prop :=
  ∃ d, Seen d p ∧ d.key = key ∧ d.isCompleted ∧ d.response = some message

theorem Answered.rely {p p' : Past World} {key : String} {message : Message} (h : Answered key message p)
    (hr : Rely p p') : Answered key message p' := by
  obtain ⟨d, hd, hrest⟩ := h
  exact ⟨d, hd.rely hr, hrest⟩

def facts (key : String) : Facts (Past World) where
  time now p := now ≤ p.1.clock
  read d p := Seen d p ∧ d.key = key ∧ (d.isCompleted → d.response.isSome)
  drawn _ _ := True
  owned _ := True
  done _ _ := True
  fine r p := ∀ res, r = .ok res → Answered key res.message p

section
variable (c)

abbrev Sound {α : Type} (i : Nat) (post : Past World → α → Prop) (prog : Prog Ans α) (p : Past World) : Prop :=
  Pool.Safe (Pool.record (exec c)) (fun _ _ _ _ => True) Inv (fun _ => Rely) i post prog p

abbrev Does (i : Nat) (cmd : Cmd) (pre : Past World → Prop) (gives : Ans cmd → Past World → Prop) : Prop :=
  Pool.Does (Pool.record (exec c)) (fun _ _ _ _ => True) Inv (fun _ => Rely) i cmd pre gives

variable {c} {α : Type} {p₀ : Past World} {P : Past World → Prop} {key : String}

theorem does_of_allowed {gives : Ans cmd → Past World → Prop} (ha : ∀ p, P p → Allowed p.1.clock cmd)
    (hg : ∀ e p r w, Inv p → exec c i e p.1 cmd = some (r, w) → gives r (w, ⟨i, p.1, w⟩ :: p.2)) :
    Does c i cmd P gives := by
  intro e p r p' hi hpre _ hx
  obtain ⟨w, hexec, rfl⟩ := Pool.record_eq_some hx
  have hm := moves_exec (ha p hpre) hexec
  exact ⟨hm.inv hi, fun _ => hm.rely, hg e p r w hi hexec⟩

theorem does_tame (ha : ∀ t, Allowed t cmd) : Does c i cmd P fun _ _ => True :=
  does_of_allowed (fun p _ => ha p.1.clock) fun _ _ _ _ _ _ => trivial

theorem sound_tame {post : Past World → α → Prop} {k : Ans cmd → Prog Ans α} (ha : ∀ t, Allowed t cmd)
    (hk : ∀ r p, Sound c i post (k r) p) : Sound c i post (.call cmd k) p₀ :=
  (does_tame (P := fun _ => True) ha).call (fun _ _ _ => Rely.trans) (fun _ _ _ _ => trivial) trivial
    fun r p _ _ => hk r p

theorem does_now : Does c i .now P (facts key).time := by
  refine does_of_allowed (fun _ _ => trivial) fun e p r w _ hx => ?_
  rcases exec_cases hx with hx | ⟨_, hr, _⟩
  · cases hx
    exact Nat.le_refl _
  · cases hr

theorem does_findRecord {now : Time} :
    Does c i (.findRecord key now) P fun r p => ∀ d, r = .ok d → (facts key).read d p := by
  refine does_of_allowed (fun _ _ => trivial) fun e p r w hi hx d hr => ?_
  obtain ⟨rfl, hok⟩ := exec_findRecord hx
  obtain ⟨hmem, hkey, _⟩ := findRecord_ok (hok d hr)
  exact ⟨⟨_, .inl rfl, hmem⟩, hkey, hi.response d ⟨_, .inl rfl, hmem⟩⟩

theorem does_complete {reservationID : String} {result : MessageResult} {now : Time} :
    Does c i (.complete key reservationID result.message now) P fun r p => r = .ok () → (facts key).fine (.ok result) p := by
  refine does_of_allowed (fun _ _ => trivial) fun e p r w _ hx hr res heq => ?_
  cases heq
  subst hr
  rcases exec_complete hx with ⟨⟨_, h⟩, _⟩ | hok
  · cases h
  · obtain ⟨d, hd, hp, heq, hmem⟩ := complete_ok hok
    refine ⟨d.completedWith result.message, ⟨w, .inl rfl, (hmem _).mpr (.inr rfl)⟩, ?_, rfl, rfl⟩
    simp only [ownedFilter, Bool.and_eq_true, beq_iff_eq] at hp
    exact hp.1.1.1

theorem fine_replay {d : IdempotencyRecord} {operation : Operation} {requestHash : String} (h : (facts key).read d p₀)
    (hc : d.isCompleted) : (facts key).fine (replayIdempotency d operation requestHash) p₀ := by
  intro res hres
  obtain ⟨hseen, rfl, hsome⟩ := h
  obtain ⟨message, hmessage⟩ := Option.isSome_iff_exists.mp (hsome hc)
  unfold replayIdempotency at hres
  split at hres
  · cases hres
  · cases hres
    exact ⟨d, hseen, rfl, hc, by rw [hmessage, Option.getD_some]⟩

theorem rules (operation : Operation) (requestHash : String) :
    (facts key).Rules (Pool.record (exec c)) (fun _ _ _ _ => True) Inv Rely i c key operation requestHash where
  refl := Rely.refl
  trans := fun _ _ _ => Rely.trans
  time_later := fun _ _ _ h hr => Nat.le_trans h hr.clock
  read_later := fun _ _ _ h hr => ⟨h.1.rely hr, h.2⟩
  drawn_later := fun _ _ _ _ _ => trivial
  done_later := fun _ _ _ _ _ => trivial
  fine_later := fun _ _ _ h hr res hres => (h res hres).rely hr
  error := fun _ _ _ h => by cases h
  replay := fun _ _ => fine_replay
  now := does_now
  newUUID := does_of_allowed (fun _ _ => trivial) fun _ _ _ _ _ _ _ _ => trivial
  findRecord := fun _ => does_findRecord
  insertRecord := fun _ _ => does_of_allowed (fun _ _ => rfl) fun _ _ _ _ _ _ _ => trivial
  deleteStale := fun _ => does_of_allowed (fun _ h => h) fun _ _ _ _ _ _ => trivial
  claim := fun _ _ _ _ _ _ => does_of_allowed (fun _ _ => trivial) fun _ _ _ _ _ _ _ _ => trivial
  complete := fun _ _ _ => does_complete
  tame := by
    intro cmd hcmd
    cases cmd with
    | insertRecord _ | deleteStale _ _ => cases hcmd
    | _ => exact does_tame fun _ => trivial

theorem allowed_of_sparesRecords (hc : cmd.sparesRecords) (t : Time) : Allowed t cmd := by
  cases cmd with
  | insertRecord d => cases hc
  | deleteStale key now => cases hc
  | _ => trivial

theorem sound_of_spares {prog : Prog Ans α} (hp : Spares prog) : Sound c i (fun _ _ => True) prog p₀ := by
  refine Pool.Safe.of_uses (fun _ _ h _ => h) (fun e p cmd r p' hc hi _ hg hx => ?_) hp trivial
  obtain ⟨hi', hrely, -⟩ := does_tame (P := fun _ => True) (allowed_of_sparesRecords hc) e p r p' hi trivial hg hx
  exact ⟨hi', fun j _ => hrely j, trivial⟩

theorem sound_withIdempotency {site : Site} {key : String} {operation : Operation} {request : Request} {execute : Handler}
    (hexecute : Spares execute) :
    Sound c i (fun p r => trimSpace key ≠ "" → (facts (trimSpace key)).fine r p)
      (withIdempotency c site key operation request execute) p₀ := by
  by_cases hkey : trimSpace key = ""
  · rw [withIdempotency, if_pos hkey]
    exact (sound_of_spares hexecute).mono fun _ _ _ h => absurd hkey h
  · refine (Facts.Rules.withIdempotency hkey (rules operation _) fun p _ => ?_).mono fun _ _ h _ => h
    exact (sound_of_spares hexecute).mono fun _ _ _ _ _ => trivial

end

theorem sound_handler (call : Call) (i : Nat) (p₀ : Past World) :
    Sound c i (fun p r => ∀ request res, call.request = some request → r = some (.ok res) →
      trimSpace request.idempotencyKey ≠ "" → Answered (trimSpace request.idempotencyKey) res.message p)
      (call.handler c) p₀ := by
  refine (safe_handler (Q := fun request p r => trimSpace request.idempotencyKey ≠ "" → ∀ res, r = .ok res →
      Answered (trimSpace request.idempotencyKey) res.message p) (fun site request _ => ?_) ?_ (fun id => ?_)
    fun key => ?_).mono fun p r h request res hreq hr hkey => h request res hreq hr hkey res rfl
  · exact sound_withIdempotency (spares_core c request)
  · simp only [Call.handler, perform, Prog.perform_bind]
    exact sound_tame (fun _ => trivial) fun _ p => sound_tame (fun _ => trivial) fun _ p => trivial
  · simp only [Call.handler, perform, Prog.perform_bind]
    exact sound_tame (fun _ => trivial) fun _ p => trivial
  · simp only [Call.handler, perform, Prog.perform_bind]
    exact sound_tame (fun _ => trivial) fun _ p => trivial

theorem inv_init (clock : Time) : Inv (World.init clock, []) := by
  have hnone : ∀ d, ¬ Seen d (World.init clock, []) := by
    rintro d ⟨u, rfl | ⟨m, hm, _⟩, hd⟩
    · exact Coll.not_mem_empty d hd
    · cases hm
  exact ⟨fun d h => absurd h (hnone d), fun d h => absurd h (hnone d), fun d h => absurd h (hnone d)⟩

/-! ## A refused `Complete` -/

def Refused : (cmd : Cmd) → Ans cmd → Prop
  | .complete _ _ _ _, r => ∃ err, r = Except.error err
  | _, _ => False

def Failed (r : Except GoErr MessageResult) : Prop := ∃ err, r = .error err

theorem not_refused_of_sparesRecords (hc : cmd.sparesRecords) (r : Ans cmd) : ¬ Refused cmd r := by
  cases cmd with
  | complete _ _ _ _ => cases hc
  | _ => exact id

section
variable {α : Type}

theorem decides_call {Q : α → Prop} {k : Ans cmd → Prog Ans α} (hc : ∀ r, ¬ Refused cmd r)
    (hk : ∀ r, (k r).Decides Refused Q) : (Prog.call cmd k).Decides Refused Q :=
  fun r => ⟨fun hr => absurd hr (hc r), hk r⟩

theorem noComplete_withRenewal {key reservationID : String} {prog : Prog Ans α} (hp : Spares prog) :
    (withRenewal c key reservationID prog).Uses fun cmd => ∀ r, ¬ Refused cmd r :=
  uses_withRenewal (uses_renewals (fun _ => id) (fun _ => id) (fun _ _ _ _ _ => id) c key reservationID)
    (hp.mono fun _ => not_refused_of_sparesRecords)

theorem decides_executeReserved {key reservationID : String} {execute : Handler} (hexecute : Spares execute) :
    (executeReserved c key reservationID execute).Decides Refused Failed := by
  refine (Prog.Decides.of_uses (noComplete_withRenewal hexecute)).bind (R := fun _ => False) (fun _ h => h.elim) fun r => ?_
  obtain ⟨result, leaseErr⟩ := r
  cases result with
  | error err => exact decides_call (fun _ => id) fun _ => trivial
  | ok result =>
    cases leaseErr with
    | some err => exact decides_call (fun _ => id) fun _ => trivial
    | none =>
      refine decides_call (fun _ => id) fun now r => ⟨?_, ?_⟩
      · rintro ⟨err, rfl⟩
        exact ⟨err, rfl⟩
      · cases r <;> trivial

abbrev NoComplete (prog : Prog Ans α) : Prop := prog.Uses fun cmd => ∀ r, ¬ Refused cmd r

theorem noComplete_reserve (record : IdempotencyRecord) (now : Time) : NoComplete (reserve record now) := by
  refine (uses_reserve record now).mono fun cmd hc r => ?_
  cases cmd with
  | complete _ _ _ _ => cases hc
  | _ => exact id

section
variable {key : String} {operation : Operation} {requestHash : String} {execute : Handler}

theorem decides_coordinate (hexecute : Spares execute) (polls : Nat) :
    (coordinate c key operation requestHash execute polls).Decides Refused Failed :=
  Coordinates.coordinate (Φ := fun prog => prog.Decides Refused Failed)
    { ret := fun _ => trivial
      now := fun _ hk => decides_call (fun _ => id) hk
      newUUID := fun _ hk => decides_call (fun _ => id) hk
      findRecord := fun _ _ hk => decides_call (fun _ => id) hk
      reserve := fun record now _ hk =>
        (Prog.Decides.of_uses (noComplete_reserve record now)).bind (R := fun _ => False) (fun _ h => h.elim) hk
      executeReserved := fun _ => decides_executeReserved hexecute } polls

theorem decides_withIdempotency {site : Site} {request : Request} (hexecute : Spares execute) :
    (withIdempotency c site key operation request execute).Decides Refused Failed := by
  unfold withIdempotency
  dsimp only
  split
  · exact Prog.Decides.of_uses (hexecute.mono fun _ => not_refused_of_sparesRecords)
  · refine decides_call (fun _ => id) fun entry => decides_call (fun _ => id) fun _ => ?_
    refine (decides_coordinate hexecute site.polls).bind (fun r hr => ?_) fun r => ?_
    · exact fun _ _ => hr
    · exact decides_call (fun _ => id) fun _ => decides_call (fun _ => id) fun _ => trivial

end

theorem decides_handler (call : Call) :
    (call.handler c).Decides Refused fun r => ∀ res, r ≠ some (.ok res) := by
  cases call with
  | serve site payload =>
    have hserve : (serve c site payload).Decides Refused Failed := by
      rcases serve_cases c site payload with ⟨err, heq⟩ | ⟨request, _, heq⟩
      · rw [heq]; trivial
      · rw [heq]; exact decides_withIdempotency (spares_core c request)
    refine hserve.bind (fun r hr res heq => ?_) fun _ => trivial
    obtain ⟨err, rfl⟩ := hr
    cases heq
  | start => exact decides_call (fun _ => id) fun _ => decides_call (fun _ => id) fun _ => trivial
  | expireToken tokenID | expireRecord key => exact decides_call (fun _ => id) fun _ => trivial

end

end Record

/-! ## Runs -/

def SucceededUnder (calls : List Call) (s : State) (key : String) (i : Nat) (res : MessageResult) : Prop :=
  (∃ site payload request, calls[i]? = some (.serve site payload) ∧ payload.request = some request ∧
    trimSpace request.idempotencyKey = key) ∧ s.answer i = some (some (.ok res))

def Completes (key : String) (m : Step World) : Prop :=
  (∃ d ∈ m.new.records, d.key = key ∧ d.isCompleted) ∧ ∀ d ∈ m.old.records, d.key = key → ¬ d.isCompleted

def Unexpired (c : DomainAuthComponent) (s : State) (sched : List (Nat × Env)) (key : String) : Prop :=
  ∀ u ∈ Pool.visited (exec c) s sched, ∀ d ∈ u.records, d.key = key → d.isCompleted →
    (Pool.run (exec c) s sched).world.clock < d.expiresAt

namespace Record

attribute [local irreducible] trimSpace

variable {c : DomainAuthComponent}

theorem exists_past (calls : List Call) (clock : Time) (sched : List (Nat × Env)) :
    ∃ p : Past World, Inv p ∧ p.1 = (Pool.run (exec c) (State.init c (.init clock) calls) sched).world ∧
      (∀ u, Visited p u ↔ u ∈ Pool.visited (exec c) (State.init c (.init clock) calls) sched) ∧
      (∀ m ∈ p.2, m ∈ Pool.trace (exec c) (State.init c (.init clock) calls) sched) ∧
      ∀ key i res, key ≠ "" →
        SucceededUnder calls (Pool.run (exec c) (State.init c (.init clock) calls) sched) key i res →
          Answered key res.message p := by
  let post : Nat → Past World → Reply → Prop := fun i p r => ∀ call request res, calls[i]? = some call →
    call.request = some request → r = some (.ok res) → trimSpace request.idempotencyKey ≠ "" →
      Answered (trimSpace request.idempotencyKey) res.message p
  have hsound : ∀ i prog, (calls.map (Call.handler c))[i]? = some prog →
      Sound c i (post i) prog (World.init clock, []) := by
    refine Pool.forall_map fun i call hcall => ?_
    refine (sound_handler call i _).mono fun p r h call' request res hi => ?_
    obtain rfl : call = call' := Option.some.inj (hcall.symm.trans hi)
    exact h request res
  obtain ⟨p, hi, hworld, hvisited, hsub, hpost⟩ := Pool.safe_past (fun _ => Rely.refl) (fun _ _ _ _ => Rely.trans)
    (inv_init clock) hsound (Pool.along_any _ sched)
  refine ⟨p, hi, hworld, hvisited, hsub, ?_⟩
  rintro key i res hkey ⟨⟨site, payload, request, hcall, hreq, rfl⟩, hans⟩
  obtain ⟨q, hq, hrely⟩ := hpost i _ hans
  obtain ⟨d, hd, hrest⟩ := hq _ request res hcall hreq rfl hkey
  exact ⟨d, hd.rely hrely, hrest⟩

theorem clock_run : ∀ (sched : List (Nat × Env)) (s : State), s.world.clock ≤ (Pool.run (exec c) s sched).world.clock
  | [], _ => Nat.le_refl _
  | a :: sched, s => by
    refine Nat.le_trans ?_ (clock_run sched _)
    rcases Pool.step_cases (exec c) s a with heq | ⟨cmd, k, r, w, _, hx, heq⟩
    · rw [heq]
    · rw [heq]
      exact Nat.le_trans (Nat.le_add_right ..) (Nat.le_of_eq (exec_clock hx).symm)

theorem unexpired_of_append {s : State} {key : String} {as bs : List (Nat × Env)} (h : Unexpired c s (as ++ bs) key) :
    Unexpired c s as key := by
  intro u hu d hd hkey hc
  refine Nat.lt_of_le_of_lt ?_ (h u ((Pool.mem_visited_append (exec c) as bs s).mpr (.inl hu)) d hd hkey hc)
  rw [Pool.run_append]
  exact clock_run bs _

theorem completes_once {calls : List Call} {clock : Time} {key : String} (sched : List (Nat × Env))
    (hlive : Unexpired c (State.init c (.init clock) calls) sched key) :
    (Pool.trace (exec c) (State.init c (.init clock) calls) sched).Pairwise fun m n =>
      ¬ (Completes key m ∧ Completes key n) := by
  induction sched using List.reverseRecOn with
  | nil => exact List.Pairwise.nil
  | append_singleton sched a ih =>
    rw [Pool.trace_append]
    refine List.pairwise_append.mpr ⟨ih (unexpired_of_append hlive), List.pairwise_singleton .., fun m hm n hn ⟨hcm, hcn⟩ => ?_⟩
    obtain rfl := List.mem_singleton.mp hn
    obtain ⟨p, hi, hworld, hvisited, -, -⟩ := exists_past (c := c) calls clock sched
    obtain ⟨d, hd, hkey, hc⟩ := hcm.1
    have hmem := (Pool.mem_visited_of_trace sched _ hm).2
    have hkept := hi.kept d ⟨m.new, (hvisited _).mpr hmem, hd⟩ hc (hworld ▸ unexpired_of_append hlive _ hmem d hd hkey hc)
    exact hcn.2 d (hworld ▸ hkept) hkey hc

end Record

open Record in
/-- Calls with one key, of any processes, in any interleaving, with crashes,
start-up recovery and TTL deletion: as long as no completed record of the key
has expired, every success is the response that the one `Complete` of that key
has stored; and a caller whose `Complete` was refused does not succeed. -/
theorem keyed_calls_agree (c : DomainAuthComponent) (calls : List Call) (clock : Time) (sched : List (Nat × Env))
    (key : String) (hkey : key ≠ "") :
    let s₀ := State.init c (.init clock) calls
    let s := Pool.run (exec c) s₀ sched
    (Unexpired c s₀ sched key →
      (∀ i res, SucceededUnder calls s key i res → ∃ d ∈ s.world.records, d.key = key ∧ d.isCompleted ∧
        d.response = some res.message ∧ ∃ before m after, Pool.trace (exec c) s₀ sched = before ++ m :: after ∧
          d ∈ m.new.records ∧ Completes key m ∧ ∀ n ∈ before ++ after, ¬ Completes key n) ∧
      ∀ i j res res', SucceededUnder calls s key i res → SucceededUnder calls s key j res' →
        res.message = res'.message) ∧
    ∀ before a after reservationID message now k err w, sched = before ++ a :: after →
      (Pool.run (exec c) s₀ before).procs[a.1]? = some (.call (.complete key reservationID message now) k) →
      exec c a.1 a.2 (Pool.run (exec c) s₀ before).world (.complete key reservationID message now) = some (.error err, w) →
        ∀ res, s.answer a.1 ≠ some (some (.ok res)) := by
  intro s₀ s
  refine ⟨fun hlive => ?_, ?_⟩
  · obtain ⟨p, hi, hworld, hvisited, hsub, hsucc⟩ := exists_past (c := c) calls clock sched
    have hstored : ∀ i res, SucceededUnder calls s key i res → ∃ d, Seen d p ∧ d ∈ s.world.records ∧ d.key = key ∧
        d.isCompleted ∧ d.response = some res.message := by
      intro i res h
      obtain ⟨d, hd, hdkey, hc, hmessage⟩ := hsucc key i res hkey h
      obtain ⟨u, hu, hdu⟩ := id hd
      have hlt : p.1.clock < d.expiresAt := hworld ▸ hlive u ((hvisited u).mp hu) d hdu hdkey hc
      exact ⟨d, hd, hworld ▸ hi.kept d hd hc hlt, hdkey, hc, hmessage⟩
    refine ⟨fun i res h => ?_, fun i j res res' h h' => ?_⟩
    · obtain ⟨d, hseen, hd, hdkey, hc, hmessage⟩ := hstored i res h
      obtain ⟨m, hm, hdm, d₀, hd₀, hkey₀, hpending⟩ := hi.origin d hseen hc
      have hcompletes : Completes key m := by
        refine ⟨⟨d, hdm, hdkey, hc⟩, fun x hx hxkey hxc => ?_⟩
        have heq : x = d₀ := Coll.eq_of_clash hx hd₀ (by simp [idempotencyIndexes, hxkey, hkey₀, hdkey])
        rw [isCompleted_iff, heq, hpending] at hxc
        cases hxc
      obtain ⟨before, after, hsplit⟩ := List.append_of_mem (hsub m hm)
      refine ⟨d, hd, hdkey, hc, hmessage, before, m, after, hsplit, hdm, hcompletes, fun n hn hcn => ?_⟩
      have hpair := completes_once sched hlive
      rw [hsplit, List.pairwise_append, List.pairwise_cons] at hpair
      rcases List.mem_append.mp hn with hn | hn
      · exact hpair.2.2 n hn m (List.mem_cons_self ..) ⟨hcn, hcompletes⟩
      · exact hpair.2.1.1 n hn ⟨hcompletes, hcn⟩
    · obtain ⟨d, _, hd, hdkey, _, hmessage⟩ := hstored i res h
      obtain ⟨d', _, hd', hdkey', _, hmessage'⟩ := hstored j res' h'
      have heq : d = d' := Coll.eq_of_clash hd hd' (by simp [idempotencyIndexes, hdkey, hdkey'])
      rw [heq, hmessage'] at hmessage
      exact (Option.some.inj hmessage).symm
  · intro before a after reservationID message now k err w hsplit hproc hexec res hans
    subst hsplit
    have hstart : ∀ (i : Nat) p, s₀.procs[i]? = some p →
        Prog.Decides Refused (fun r : Reply => ∀ res, r ≠ some (.ok res)) p :=
      Pool.forall_map fun _ call _ => decides_handler call
    exact Pool.decides_run hstart hproc hexec ⟨err, rfl⟩ hans res rfl

def retriedLogin : List Call :=
  [.serve {} (.guestAuthenticate (some { installID := "phone", idempotencyKey := "k" })),
    .serve { process := 1 } (.guestAuthenticate (some { installID := "phone", idempotencyKey := " k" }))]

def firstThenRetry : List (Nat × Env) :=
  drawing ((["", "", "", "", "reservation", "", "", "", "", "", "account", "", "identity", "", "", "", "token", "", "raw",
    "", "", "", "", "", "", "", "", ""].map (0, ·)) ++ List.replicate 6 (1, ""))

theorem keyed_calls_agree_on_retry :
    ∃ d ∈ (Pool.run (exec plainComponent) (State.init plainComponent (.init 5) retriedLogin)
      firstThenRetry).world.records,
      d.key = "k" ∧ d.isCompleted ∧ d.response = some (.guest ⟨"account", "raw", 1⟩ true) := by
  have hlive : Unexpired plainComponent (State.init plainComponent (.init 5) retriedLogin) firstThenRetry "k" := by
    have h : ∀ u ∈ Pool.visited (exec plainComponent) (State.init plainComponent (.init 5) retriedLogin) firstThenRetry,
        ∀ d ∈ u.records.docs, d.key = "k" → d.isCompleted →
          (Pool.run (exec plainComponent) (State.init plainComponent (.init 5) retriedLogin)
            firstThenRetry).world.clock < d.expiresAt := by decide +kernel
    exact h
  have h := (keyed_calls_agree plainComponent retriedLogin 5 firstThenRetry "k" (by decide)).1 hlive
  obtain ⟨d, hd, hkey, hc, hmessage, _⟩ := h.1 1 ⟨guestAuthenticateResponse, .guest ⟨"account", "raw", 1⟩ true⟩
    ⟨⟨_, _, _, rfl, rfl, by decide⟩, by decide +kernel⟩
  exact ⟨d, hd, hkey, hc, hmessage⟩

end GameServer.UserCenter
