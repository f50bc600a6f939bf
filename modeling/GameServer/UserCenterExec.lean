import GameServer.Idempotency

/-!
# The user center: what a command does

The effect of a command, whether or not its answer arrived, on the tokens, the
records and the strings drawn.
-/

namespace GameServer.UserCenter

attribute [local irreducible] trimSpace

variable {c : DomainAuthComponent} {i : Nat} {e : Env} {w w' : World} {cmd : Cmd}

def World.tick (w : World) (delay : Nat) : World := { w with clock := w.clock + delay }

theorem exec_cases {r : Ans cmd} (h : exec c i e w cmd = some (r, w')) :
    (w.tick e.delay).answer c i cmd e = some (r, w') ∨ ∃ text, failed text cmd = some r ∧
      (w' = w.tick e.delay ∨ ∃ r₀, (w.tick e.delay).answer c i cmd e = some (r₀, w')) := by
  unfold exec at h
  split at h
  · exact .inl h
  · rename_i text _
    obtain ⟨r₁, hr₁, h⟩ := Option.bind_eq_some_iff.mp h
    right
    split at h
    · obtain ⟨⟨r₀, w₀⟩, hx, heq⟩ := Option.map_eq_some_iff.mp h
      cases heq
      exact ⟨text, hr₁, .inr ⟨r₀, hx⟩⟩
    · cases h
      exact ⟨text, hr₁, .inl rfl⟩

theorem exec_effect {r : Ans cmd} (h : exec c i e w cmd = some (r, w')) :
    w' = w.tick e.delay ∨ ∃ r₀, (w.tick e.delay).answer c i cmd e = some (r₀, w') := by
  rcases exec_cases h with h | ⟨_, _, h⟩
  · exact .inr ⟨r, h⟩
  · exact h

variable {r : Except GoErr Unit} {t : RefreshToken} {d : Identity} {now : Time} {key : String}

theorem commit_cases {x : Except GoErr World} (h : commit w x = (r, w')) :
    (∃ err, x = .error err ∧ r = .error err ∧ w' = w) ∨ (x = .ok w' ∧ r = .ok ()) := by
  cases x with
  | error err => cases h; exact .inl ⟨err, rfl, rfl, rfl⟩
  | ok w₁ => cases h; exact .inr ⟨rfl, rfl⟩

theorem committed {w₀ : World} {x : Except GoErr World} {lost : String → GoErr}
    (h : some (commit w₀ x) = some (r, w') ∨ ∃ text, some (.error (lost text)) = some r ∧
      (w' = w₀ ∨ ∃ r₀, some (commit w₀ x) = some (r₀, w'))) : (∃ err, r = .error err) ∧ w' = w₀ ∨ x = .ok w' := by
  rcases h with h | ⟨text, hlost, h⟩
  · rcases commit_cases (Option.some.inj h) with ⟨err, _, hr, hw⟩ | ⟨hx, _⟩
    · exact .inl ⟨⟨err, hr⟩, hw⟩
    · exact .inr hx
  · have hr : ∃ err, r = .error err := ⟨_, (Option.some.inj hlost).symm⟩
    rcases h with hw | ⟨r₀, h⟩
    · exact .inl ⟨hr, hw⟩
    · rcases commit_cases (Option.some.inj h) with ⟨_, _, _, hw⟩ | ⟨hx, _⟩
      · exact .inl ⟨hr, hw⟩
      · exact .inr hx

theorem exec_insertToken (h : exec c i e w (.insertToken t) = some (r, w')) :
    (∃ err, r = .error err) ∧ w' = w.tick e.delay ∨ (w.tick e.delay).insertToken t = .ok w' :=
  committed (exec_cases h)

theorem exec_createAccountTx {a : Account} (h : exec c i e w (.createAccountTx a d t) = some (r, w')) :
    (∃ err, r = .error err) ∧ w' = w.tick e.delay ∨ (w.tick e.delay).createAccountTx a d t = .ok w' :=
  committed (exec_cases h)

theorem exec_revoke {id : String} (h : exec c i e w (.revoke id now) = some (r, w')) :
    (∃ err, r = .error err) ∧ w' = w.tick e.delay ∨ (w.tick e.delay).revoke id now = .ok w' :=
  committed (exec_cases h)

theorem exec_rotateTx {id : String} (h : exec c i e w (.rotateTx id now t) = some (r, w')) :
    (∃ err, r = .error err) ∧ w' = w.tick e.delay ∨ (w.tick e.delay).rotateTx id now t = .ok w' :=
  committed (exec_cases h)

theorem exec_complete {reservationID : String} {response : Message}
    (h : exec c i e w (.complete key reservationID response now) = some (r, w')) :
    (∃ err, r = .error err) ∧ w' = w.tick e.delay ∨
      (w.tick e.delay).complete key reservationID response now = .ok w' :=
  committed (exec_cases h)

theorem looked {α : Type} {w₀ : World} {x r : Except GoErr α} {lost : String → GoErr}
    (h : some (x, w₀) = some (r, w') ∨ ∃ text, some (.error (lost text)) = some r ∧
      (w' = w₀ ∨ ∃ r₀, some (x, w₀) = some (r₀, w'))) : w' = w₀ ∧ ∀ d, r = .ok d → x = .ok d := by
  rcases h with h | ⟨text, hlost, h⟩
  · cases h
    exact ⟨rfl, fun _ hd => hd⟩
  · cases hlost
    rcases h with hw | ⟨r₀, h⟩
    · exact ⟨hw, fun _ hd => by cases hd⟩
    · cases h
      exact ⟨rfl, fun _ hd => by cases hd⟩

theorem exec_findRecord {r : Except GoErr IdempotencyRecord} (h : exec c i e w (.findRecord key now) = some (r, w')) :
    w' = w.tick e.delay ∧ ∀ d, r = .ok d → w.findRecord key now = .ok d :=
  looked (exec_cases h)

theorem exec_findValid {tokenHash : String} {r : Except GoErr RefreshToken}
    (h : exec c i e w (.findValid tokenHash now) = some (r, w')) :
    w' = w.tick e.delay ∧ ∀ t, r = .ok t → w.findValid tokenHash now = .ok t :=
  looked (exec_cases h)

theorem draw_cases {id : String} {r : Except GoErr String} (h : w.draw i id = some (r, w')) :
    r = .ok id ∧ id ≠ "" ∧ (∀ x ∈ w.drawn, x.2 ≠ id) ∧ w' = { w with drawn := (i, id) :: w.drawn } := by
  unfold World.draw at h
  split at h
  · rename_i hid
    cases h
    exact ⟨rfl, hid.1, hid.2, rfl⟩
  · cases h

def Draws (i : Nat) (w w' : World) (r : Except GoErr String) : Prop :=
  w'.accounts = w.accounts ∧ w'.identities = w.identities ∧ w'.tokens = w.tokens ∧ w'.records = w.records ∧
    ((∃ err, r = .error err) ∧ w'.drawn = w.drawn ∨
      ∃ x, x ≠ "" ∧ (∀ y ∈ w.drawn, y.2 ≠ x) ∧ w'.drawn = (i, x) :: w.drawn ∧ (r = .ok x ∨ ∃ err, r = .error err))

theorem draws_draw {id : String} {r : Except GoErr String} (h : w.draw i id = some (r, w')) : Draws i w w' r := by
  obtain ⟨hr, hne, hfresh, rfl⟩ := draw_cases h
  exact ⟨rfl, rfl, rfl, rfl, .inr ⟨id, hne, hfresh, rfl, .inl hr⟩⟩

theorem Draws.mem {r : Except GoErr String} {x : String} (h : Draws i w w' r) (hr : r = .ok x) : (i, x) ∈ w'.drawn := by
  obtain ⟨-, -, -, -, ⟨⟨err, herr⟩, _⟩ | ⟨y, _, _, h, hy | ⟨err, herr⟩⟩⟩ := h
  · cases herr.symm.trans hr
  · cases hy.symm.trans hr
    rw [h]
    exact List.mem_cons_self ..
  · cases herr.symm.trans hr

theorem Draws.lost {r : Except GoErr String} (h : Draws i w w' r) (err : GoErr) : Draws i w w' (.error err) := by
  obtain ⟨ha, hd, ht, hr, h⟩ := h
  refine ⟨ha, hd, ht, hr, ?_⟩
  rcases h with ⟨_, h⟩ | ⟨x, hne, hx, h, _⟩
  · exact .inl ⟨⟨err, rfl⟩, h⟩
  · exact .inr ⟨x, hne, hx, h, .inr ⟨err, rfl⟩⟩

theorem draws_tick (w : World) (delay : Nat) (err : GoErr) : Draws i w (w.tick delay) (.error err) :=
  ⟨rfl, rfl, rfl, rfl, .inl ⟨⟨err, rfl⟩, rfl⟩⟩

theorem exec_newUUID {r : Except GoErr String} (h : exec c i e w .newUUID = some (r, w')) : Draws i w w' r := by
  rcases exec_cases h with hx | ⟨text, hr, hx⟩
  · exact draws_draw (w := w.tick e.delay) hx
  · cases hr
    rcases hx with rfl | ⟨r₀, hx⟩
    · exact draws_tick w e.delay _
    · exact (draws_draw (w := w.tick e.delay) hx).lost _

theorem exec_readRandom {r : Except GoErr String} (h : exec c i e w .readRandom = some (r, w')) : Draws i w w' r := by
  rcases exec_cases h with hx | ⟨text, hr, hx⟩
  · exact draws_draw (w := w.tick e.delay) hx
  · cases hr
    rcases hx with rfl | ⟨r₀, hx⟩
    · exact draws_tick w e.delay _
    · exact (draws_draw (w := w.tick e.delay) hx).lost _

/-! ## Tokens -/

theorem revokeFilter_pins (tokenID : String) : Coll.Pins refreshTokenIndexes (revokeFilter tokenID) := by
  intro a b ha hb
  simp only [revokeFilter, Bool.and_eq_true, beq_iff_eq] at ha hb
  simp [refreshTokenIndexes, ha.1, hb.1]

theorem rotateFilter_pins (tokenID : String) (now : Time) : Coll.Pins refreshTokenIndexes (rotateFilter tokenID now) := by
  intro a b ha hb
  simp only [rotateFilter, Bool.and_eq_true, beq_iff_eq] at ha hb
  simp [refreshTokenIndexes, ha.1.1, hb.1.1]

theorem revoke_ok {tokenID : String} (h : w.revoke tokenID now = .ok w') :
    ∃ t ∈ w.tokens, t.id = tokenID ∧ t.revokedAt = none ∧ w' = { w with tokens := w'.tokens } ∧
      ∀ x, x ∈ w'.tokens ↔ (x ∈ w.tokens ∧ revokeFilter tokenID x = false) ∨ x = t.revokedFrom now := by
  unfold World.revoke at h
  split at h
  · rename_i t hf
    cases h
    obtain ⟨hmem, hp⟩ := Coll.mem_of_findOne hf
    simp only [revokeFilter, Bool.and_eq_true, beq_iff_eq] at hp
    exact ⟨t, hmem, hp.1, hp.2, rfl, Coll.mem_updateOne_of_findOne (revokeFilter_pins tokenID) (revokedFrom_keepsKeys now) hf⟩
  · cases h

theorem rotateTx_ok {tokenID : String} {replacement : RefreshToken} (h : w.rotateTx tokenID now replacement = .ok w') :
    ∃ t ∈ w.tokens, t.id = tokenID ∧ t.revokedAt = none ∧ w' = { w with tokens := w'.tokens } ∧
      ∀ x, x ∈ w'.tokens ↔
        x = replacement ∨ (x ∈ w.tokens ∧ rotateFilter tokenID now x = false) ∨ x = t.revokedFrom now := by
  unfold World.rotateTx at h
  split at h
  · cases h
  · rename_i t hf
    split at h
    · rename_i tokens hins
      cases h
      obtain ⟨hmem, hp⟩ := Coll.mem_of_findOne hf
      simp only [rotateFilter, Bool.and_eq_true, beq_iff_eq] at hp
      refine ⟨t, hmem, hp.1.1, hp.1.2, rfl, fun x => ?_⟩
      rw [Coll.mem_insertOne hins, Coll.mem_updateOne_of_findOne (rotateFilter_pins tokenID now) _ hf]
    · cases h

theorem findValid_ok {tokenHash : String} (h : w.findValid tokenHash now = .ok t) :
    t ∈ w.tokens ∧ t.tokenHash = tokenHash ∧ t.revokedAt = none ∧ now < t.expiresAt := by
  unfold World.findValid at h
  split at h
  · cases h
  · split at h
    · rename_i t' hf
      cases h
      obtain ⟨hmem, hp⟩ := Coll.mem_of_findOne hf
      simp only [Bool.and_eq_true, beq_iff_eq, decide_eq_true_eq] at hp
      exact ⟨hmem, hp.1.1, hp.1.2, hp.2⟩
    · cases h

theorem findValid_error {tokenHash : String} {err : GoErr} (h : w.findValid tokenHash now = .error err) :
    err = errInvalidToken := by
  unfold World.findValid at h
  split at h
  · cases h; rfl
  · split at h
    · cases h
    · cases h; rfl

theorem insertToken_ok (h : w.insertToken t = .ok w') :
    w' = { w with tokens := w'.tokens } ∧ ∀ x, x ∈ w'.tokens ↔ x = t ∨ x ∈ w.tokens := by
  unfold World.insertToken at h
  split at h
  · rename_i tokens hins
    cases h
    exact ⟨rfl, Coll.mem_insertOne hins⟩
  · cases h

theorem refreshTokenDocumentFromDomain_ok {d : RefreshToken} (h : refreshTokenDocumentFromDomain t now = .ok d) :
    d = t := by
  unfold refreshTokenDocumentFromDomain at h
  split at h
  · cases h
  · split at h
    · cases h
    · cases h; rfl

theorem createAccount_ok {a : Account} (h : w.createAccount a = .ok w') :
    w' = { w with accounts := w'.accounts } ∧ (∀ x, x ∈ w'.accounts ↔ x = a ∨ x ∈ w.accounts) ∧
      ∀ x ∈ w.accounts, x.id ≠ a.id := by
  obtain ⟨_, _, h⟩ := bind_eq_ok h
  split at h
  · rename_i accounts hins
    cases h
    refine ⟨rfl, Coll.mem_insertOne hins, fun x hx heq => ?_⟩
    have hclash := (Coll.insertOne_eq_some hins).2 x hx
    simp [accountIndexes, Index.on, heq] at hclash
  · cases h

theorem identityDocumentFromDomain_ok {d' : Identity} (h : identityDocumentFromDomain d = .ok d') : d' = d := by
  obtain ⟨_, _, h⟩ := bind_eq_ok h
  split at h
  · cases h
  · cases h
    rfl

theorem createIdentity_ok (h : w.createIdentity d = .ok w') :
    w' = { w with identities := w'.identities } ∧ ∀ x, x ∈ w'.identities ↔ x = d ∨ x ∈ w.identities := by
  obtain ⟨d', hd', h⟩ := bind_eq_ok h
  rw [identityDocumentFromDomain_ok hd'] at h
  split at h
  · rename_i identities hins
    cases h
    exact ⟨rfl, Coll.mem_insertOne hins⟩
  · cases h

theorem createAccountTx_ok {a : Account} (h : w.createAccountTx a d t = .ok w') :
    w' = { w with accounts := w'.accounts, identities := w'.identities, tokens := w'.tokens } ∧
      ∀ x, x ∈ w'.tokens ↔ x = t ∨ x ∈ w.tokens := by
  obtain ⟨w₁, h₁, h⟩ := bind_eq_ok h
  obtain ⟨w₂, h₂, h⟩ := bind_eq_ok h
  obtain ⟨t', h₃, h⟩ := bind_eq_ok h
  obtain ⟨heq, hmem⟩ := insertToken_ok h
  rw [refreshTokenDocumentFromDomain_ok h₃] at hmem
  have e₁ := (createAccount_ok h₁).1
  have e₂ := (createIdentity_ok h₂).1
  have ht : w₂.tokens = w.tokens := by rw [e₂, e₁]
  refine ⟨?_, fun x => ht ▸ hmem x⟩
  rw [heq, e₂, e₁]

theorem createAccountTx_docs {a : Account} (h : w.createAccountTx a d t = .ok w') :
    (∀ x, x ∈ w'.accounts ↔ x = a ∨ x ∈ w.accounts) ∧ (∀ x ∈ w.accounts, x.id ≠ a.id) ∧
      ∀ x, x ∈ w'.identities ↔ x = d ∨ x ∈ w.identities := by
  obtain ⟨w₁, h₁, h⟩ := bind_eq_ok h
  obtain ⟨w₂, h₂, h⟩ := bind_eq_ok h
  obtain ⟨t', h₃, h⟩ := bind_eq_ok h
  have e₃ := (insertToken_ok h).1
  obtain ⟨e₁, haccounts, hfresh⟩ := createAccount_ok h₁
  obtain ⟨e₂, hidentities⟩ := createIdentity_ok h₂
  have ha : w'.accounts = w₁.accounts := by rw [e₃, e₂]
  have hd : w'.identities = w₂.identities := by rw [e₃]
  have hold : w₁.identities = w.identities := by rw [e₁]
  exact ⟨fun x => ha ▸ haccounts x, hfresh, fun x => by rw [hd, hidentities, hold]⟩

theorem findIdentity_of_mem (hd : d ∈ w.identities) (hsubject : d.subject ≠ "") :
    w.findIdentity d.provider d.subject = .ok d := by
  have hfind : w.identities.findOne (fun i => i.provider == d.provider && i.subject == d.subject) = some d := by
    refine Coll.findOne_eq_some hd (by simp) fun x _ hx => ?_
    simp only [Bool.and_eq_true, beq_iff_eq] at hx
    simp [identityIndexes, Index.and, Index.on, hx.1, hx.2]
  rw [World.findIdentity, if_neg hsubject, hfind]

theorem findIdentity_ok {provider : AuthProvider} {subject : String} (h : w.findIdentity provider subject = .ok d) :
    d ∈ w.identities ∧ d.provider = provider ∧ d.subject = subject := by
  unfold World.findIdentity at h
  split at h
  · cases h
  · split at h
    · rename_i d' hf
      cases h
      obtain ⟨hmem, hp⟩ := Coll.mem_of_findOne hf
      simp only [Bool.and_eq_true, beq_iff_eq] at hp
      exact ⟨hmem, hp⟩
    · cases h

theorem exec_findIdentity {provider : AuthProvider} {subject : String} {r : Except GoErr Identity}
    (h : exec c i e w (.findIdentity provider subject) = some (r, w')) :
    w' = w.tick e.delay ∧ ∀ d, r = .ok d → w.findIdentity provider subject = .ok d :=
  looked (exec_cases h)

theorem exec_generateFromPassword {password hash : String}
    (h : exec c i e w (.generateFromPassword password) = some (.ok hash, w')) :
    hash ≠ "" ∧ c.compareHashAndPassword hash password = true := by
  rcases exec_cases h with hx | ⟨text, hr, hx⟩
  · simp only [World.answer] at hx
    split at hx
    · cases hx
    · split at hx
      · rename_i hid
        cases hx
        exact hid
      · cases hx
  · cases hr

/-! ## Records -/

theorem ownedFilter_pins (key reservationID : String) (now : Time) :
    Coll.Pins idempotencyIndexes (ownedFilter key reservationID now) := by
  intro a b ha hb
  simp only [ownedFilter, Bool.and_eq_true, beq_iff_eq] at ha hb
  simp [idempotencyIndexes, ha.1.1.1, hb.1.1.1]

theorem claimFilter_pins (key reservationID : String) (now : Time) :
    Coll.Pins idempotencyIndexes (claimFilter key reservationID now) := by
  intro a b ha hb
  simp only [claimFilter, Bool.and_eq_true, beq_iff_eq] at ha hb
  simp [idempotencyIndexes, ha.1.1.1, hb.1.1.1]

theorem findRecord_ok {d : IdempotencyRecord} (h : w.findRecord key now = .ok d) :
    d ∈ w.records ∧ d.key = key ∧ now < d.expiresAt := by
  unfold World.findRecord at h
  split at h
  · cases h
  · split at h
    · rename_i d' hf
      cases h
      obtain ⟨hmem, hp⟩ := Coll.mem_of_findOne hf
      simp only [Bool.and_eq_true, beq_iff_eq, decide_eq_true_eq] at hp
      exact ⟨hmem, hp⟩
    · cases h

theorem complete_ok {reservationID : String} {response : Message}
    (h : w.complete key reservationID response now = .ok w') :
    ∃ d ∈ w.records, ownedFilter key reservationID now d = true ∧ w' = { w with records := w'.records } ∧
      ∀ x, x ∈ w'.records ↔
        (x ∈ w.records ∧ ownedFilter key reservationID now x = false) ∨ x = d.completedWith response := by
  unfold World.complete at h
  split at h
  · cases h
  · rename_i d hf
    cases h
    obtain ⟨hmem, hp⟩ := Coll.mem_of_findOne hf
    exact ⟨d, hmem, hp, rfl, Coll.mem_updateOne_of_findOne (ownedFilter_pins _ _ _) (completedWith_keepsKeys response) hf⟩

theorem renew_ok {reservationID : String} {leaseUntil : Time} (h : w.renew key reservationID leaseUntil now = .ok w') :
    ∃ d ∈ w.records, ownedFilter key reservationID now d = true ∧ w' = { w with records := w'.records } ∧
      ∀ x, x ∈ w'.records ↔
        (x ∈ w.records ∧ ownedFilter key reservationID now x = false) ∨ x = d.renewedUntil leaseUntil := by
  unfold World.renew at h
  split at h
  · cases h
  · rename_i d hf
    cases h
    obtain ⟨hmem, hp⟩ := Coll.mem_of_findOne hf
    exact ⟨d, hmem, hp, rfl, Coll.mem_updateOne_of_findOne (ownedFilter_pins _ _ _) (renewedUntil_keepsKeys leaseUntil) hf⟩

theorem claim_cases {reservationID newID : String} {leaseUntil : Time} {o : Option IdempotencyRecord}
    (h : w.claim key reservationID now newID leaseUntil = (o, w')) :
    (o = none ∧ w' = w) ∨
      ∃ d ∈ w.records, claimFilter key reservationID now d = true ∧ o = some (d.claimedBy newID leaseUntil) ∧
        w' = { w with records := w'.records } ∧
        ∀ x, x ∈ w'.records ↔
          (x ∈ w.records ∧ claimFilter key reservationID now x = false) ∨ x = d.claimedBy newID leaseUntil := by
  unfold World.claim at h
  split at h
  · cases h
    exact .inl ⟨rfl, rfl⟩
  · rename_i d hf
    cases h
    obtain ⟨hmem, hp⟩ := Coll.mem_of_findOne hf
    exact .inr ⟨d, hmem, hp, rfl, rfl, Coll.mem_updateOne_of_findOne (claimFilter_pins _ _ _) (claimedBy_keepsKeys newID leaseUntil) hf⟩

structure SameAuth (w w' : World) : Prop where
  accounts : w'.accounts = w.accounts
  identities : w'.identities = w.identities
  tokens : w'.tokens = w.tokens

def Cmd.sparesAuth : Cmd → Bool
  | .newUUID | .readRandom | .createAccountTx _ _ _ | .insertToken _ | .revoke _ _ | .rotateTx _ _ _
  | .expireToken _ => false
  | _ => true

def Cmd.sparesRecords : Cmd → Bool
  | .insertRecord _ | .deleteStale _ _ | .claim _ _ _ _ _ | .complete _ _ _ _ | .release _ _ | .renew _ _ _ _
  | .recoverExpired _ | .expireRecord _ => false
  | _ => true

def Cmd.isLock : Cmd → Bool
  | .acquireLock _ _ | .lock _ | .unlock _ | .releaseLock _ _ _ => true
  | _ => false

theorem writes_records (h : w' = { w with records := w'.records }) (hrecords : cmd.sparesRecords = false) :
    w' = { w with records := w'.records, locks := w'.locks } ∧ (cmd.sparesRecords → w'.records = w.records) ∧
      (cmd.isLock = false → w'.locks = w.locks) := by
  refine ⟨by rw [h], fun hc => ?_, fun _ => by rw [h]⟩
  rw [hrecords] at hc
  cases hc

theorem answer_frame (hc : cmd.sparesAuth) {r : Ans cmd} (h : w.answer c i cmd e = some (r, w')) :
    w' = { w with records := w'.records, locks := w'.locks } ∧ (cmd.sparesRecords → w'.records = w.records) ∧
      (cmd.isLock = false → w'.locks = w.locks) := by
  cases cmd with
  | newUUID | readRandom | createAccountTx _ _ _ | insertToken _ | revoke _ _ | rotateTx _ _ _ | expireToken _ =>
    cases hc
  | now | findIdentity _ _ | findValid _ _ | findRecord _ _ | ticks =>
    cases h
    exact ⟨rfl, fun _ => rfl, fun _ => rfl⟩
  | unlock _ | releaseLock _ _ _ | acquireLock _ _ =>
    cases h
    exact ⟨rfl, fun _ => rfl, fun hlock => by cases hlock⟩
  | deleteStale _ _ | release _ _ | recoverExpired _ | expireRecord _ =>
    cases h
    exact writes_records rfl rfl
  | generateFromPassword password =>
    simp only [World.answer] at h
    split at h
    · cases h
      exact ⟨rfl, fun _ => rfl, fun _ => rfl⟩
    · split at h
      · cases h
        exact ⟨rfl, fun _ => rfl, fun _ => rfl⟩
      · cases h
  | insertRecord document =>
    simp only [World.answer] at h
    split at h <;> cases h <;> exact writes_records rfl rfl
  | claim key reservationID now newID leaseUntil =>
    cases h
    refine writes_records ?_ rfl
    rcases claim_cases rfl with ⟨_, heq⟩ | ⟨_, _, _, _, heq, _⟩ <;> rw [heq]
  | complete key reservationID response now =>
    refine writes_records ?_ rfl
    rcases commit_cases (Option.some.inj h) with ⟨_, _, _, heq⟩ | ⟨hok, _⟩
    · rw [heq]
    · obtain ⟨_, _, _, heq, _⟩ := complete_ok hok
      rw [heq]
  | renew key reservationID leaseUntil now =>
    refine writes_records ?_ rfl
    rcases commit_cases (Option.some.inj h) with ⟨_, _, _, heq⟩ | ⟨hok, _⟩
    · rw [heq]
    · obtain ⟨_, _, _, heq, _⟩ := renew_ok hok
      rw [heq]
  | lock entry =>
    obtain ⟨locks, _, heq⟩ := Option.map_eq_some_iff.mp h
    cases heq
    exact ⟨rfl, fun _ => rfl, fun hlock => by cases hlock⟩

theorem answer_sparesAuth (hc : cmd.sparesAuth) {r : Ans cmd} (h : w.answer c i cmd e = some (r, w')) :
    w' = { w with records := w'.records, locks := w'.locks } :=
  (answer_frame hc h).1

theorem SameAuth.answer {w₀ : World} (hs : SameAuth w₀ w) (hc : cmd.sparesAuth) {r : Ans cmd}
    (h : (w.tick e.delay).answer c i cmd e = some (r, w')) : SameAuth w₀ w' := by
  have hsame := answer_sparesAuth hc h
  refine ⟨?_, ?_, ?_⟩ <;> rw [hsame]
  · exact hs.accounts
  · exact hs.identities
  · exact hs.tokens

def Cmd.onTokens : Cmd → Bool
  | .insertToken _ | .revoke _ _ | .rotateTx _ _ _ | .expireToken _ => true
  | _ => false

def Cmd.token? : Cmd → Option RefreshToken
  | .createAccountTx _ _ t | .insertToken t | .rotateTx _ _ t => some t
  | _ => none

theorem answer_onTokens (hc : cmd.onTokens) {r : Ans cmd} (h : w.answer c i cmd e = some (r, w')) :
    w' = { w with tokens := w'.tokens } ∧
      ∀ t ∈ w'.tokens, cmd.token? = some t ∨ ∃ t₀ ∈ w.tokens, t = { t₀ with revokedAt := t.revokedAt } := by
  cases cmd with
  | insertToken new =>
    rcases commit_cases (Option.some.inj h) with ⟨_, _, _, rfl⟩ | ⟨hok, _⟩
    · exact ⟨rfl, fun t ht => .inr ⟨t, ht, rfl⟩⟩
    obtain ⟨heq, hmem⟩ := insertToken_ok hok
    refine ⟨heq, fun t ht => ?_⟩
    rcases (hmem t).mp ht with rfl | ht
    · exact .inl rfl
    · exact .inr ⟨t, ht, rfl⟩
  | revoke id now =>
    rcases commit_cases (Option.some.inj h) with ⟨_, _, _, rfl⟩ | ⟨hok, _⟩
    · exact ⟨rfl, fun t ht => .inr ⟨t, ht, rfl⟩⟩
    obtain ⟨old, hold, -, -, heq, hmem⟩ := revoke_ok hok
    refine ⟨heq, fun t ht => ?_⟩
    rcases (hmem t).mp ht with ⟨ht, -⟩ | rfl
    · exact .inr ⟨t, ht, rfl⟩
    · exact .inr ⟨old, hold, rfl⟩
  | rotateTx id now new =>
    rcases commit_cases (Option.some.inj h) with ⟨_, _, _, rfl⟩ | ⟨hok, _⟩
    · exact ⟨rfl, fun t ht => .inr ⟨t, ht, rfl⟩⟩
    obtain ⟨old, hold, -, -, heq, hmem⟩ := rotateTx_ok hok
    refine ⟨heq, fun t ht => ?_⟩
    rcases (hmem t).mp ht with rfl | ⟨ht, -⟩ | rfl
    · exact .inl rfl
    · exact .inr ⟨t, ht, rfl⟩
    · exact .inr ⟨old, hold, rfl⟩
  | expireToken id =>
    cases h
    exact ⟨rfl, fun t ht => .inr ⟨t, Coll.mem_of_mem_deleteOne ht, rfl⟩⟩
  | _ => cases hc

theorem answer_auth (hc : cmd.sparesAuth = false) {r : Ans cmd} (h : w.answer c i cmd e = some (r, w')) :
    w'.records = w.records ∧ w'.locks = w.locks ∧ w'.clock = w.clock := by
  cases cmd with
  | newUUID | readRandom =>
    obtain ⟨_, _, _, rfl⟩ := draw_cases h
    exact ⟨rfl, rfl, rfl⟩
  | createAccountTx a d t =>
    rcases commit_cases (Option.some.inj h) with ⟨_, _, _, heq⟩ | ⟨hok, _⟩
    · rw [heq]; exact ⟨rfl, rfl, rfl⟩
    · rw [(createAccountTx_ok hok).1]; exact ⟨rfl, rfl, rfl⟩
  | insertToken _ | revoke _ _ | rotateTx _ _ _ | expireToken _ =>
    rw [(answer_onTokens rfl h).1]
    exact ⟨rfl, rfl, rfl⟩
  | _ => cases hc

theorem exec_clock {r : Ans cmd} (h : exec c i e w cmd = some (r, w')) : w'.clock = w.clock + e.delay := by
  rcases exec_effect h with rfl | ⟨r₀, hx⟩
  · rfl
  · cases hc : cmd.sparesAuth with
    | true => rw [answer_sparesAuth hc hx]; rfl
    | false => rw [(answer_auth hc hx).2.2]; rfl

theorem answer_sparesRecords (hc : cmd.sparesRecords) {r : Ans cmd} (h : w.answer c i cmd e = some (r, w')) :
    w'.records = w.records := by
  cases hauth : cmd.sparesAuth with
  | false => exact (answer_auth hauth h).1
  | true => exact (answer_frame hauth h).2.1 hc

theorem answer_locks (hc : cmd.isLock = false) {r : Ans cmd} (h : w.answer c i cmd e = some (r, w')) :
    w'.locks = w.locks := by
  cases hauth : cmd.sparesAuth with
  | false => exact (answer_auth hauth h).2.1
  | true => exact (answer_frame hauth h).2.2 hc

theorem exec_sparesRecords (hc : cmd.sparesRecords) {r : Ans cmd} (h : exec c i e w cmd = some (r, w')) :
    w'.records = w.records := by
  rcases exec_effect h with rfl | ⟨r₀, hx⟩
  · rfl
  · exact (answer_sparesRecords hc hx : w'.records = (w.tick e.delay).records)

/-! ## The commands of the cores -/

abbrev Spares {α : Type} (prog : Prog Ans α) : Prop := prog.Uses fun cmd => cmd.sparesRecords = true

def Cmd.isCore : Cmd → Bool
  | .now | .newUUID | .readRandom | .generateFromPassword _ | .findIdentity _ _ | .createAccountTx _ _ _ | .insertToken _
  | .findValid _ _ | .revoke _ _ | .rotateTx _ _ _ => true
  | _ => false

abbrev Confined {α : Type} (prog : Prog Ans α) : Prop := prog.Uses fun cmd => cmd.isCore = true

section
variable (c)

theorem confined_newToken (accountID installID : String) : Confined (newToken c accountID installID) := by
  unfold newToken
  split
  · trivial
  simp only [perform, Prog.perform_bind, Prog.pure_eq]
  refine ⟨rfl, fun r => ?_⟩
  cases r with
  | error err => trivial
  | ok id =>
    refine ⟨rfl, fun r => ?_⟩
    cases r with
    | error err => trivial
    | ok raw => exact ⟨rfl, fun _ => trivial⟩

theorem confined_createToken (t : RefreshToken) : Confined (createToken t) := by
  unfold createToken
  simp only [perform, Prog.perform_bind]
  refine ⟨rfl, fun now => ?_⟩
  dsimp only
  split
  · trivial
  · exact ⟨rfl, fun _ => trivial⟩

theorem confined_rotate (id : String) (now : Time) (t : RefreshToken) : Confined (rotate id now t) := by
  unfold rotate
  split
  · trivial
  simp only [perform, Prog.perform_bind, Prog.pure_eq]
  refine ⟨rfl, fun today => ?_⟩
  dsimp only
  split
  · trivial
  · exact ⟨rfl, fun _ => trivial⟩

theorem confined_issueToken (accountID installID : String) : Confined (issueToken c accountID installID) := by
  refine (confined_newToken c accountID installID).bind fun r => ?_
  cases r with
  | error err => trivial
  | ok made =>
    refine (confined_createToken made.1).bind fun r => ?_
    cases r <;> trivial

theorem confined_hashPassword (password : String) : Confined (hashPassword password) := by
  unfold hashPassword
  split
  · trivial
  simp only [perform, Prog.perform_bind, Prog.pure_eq]
  refine ⟨rfl, fun r => ?_⟩
  cases r <;> trivial

theorem confined_createAccountAndToken (provider : AuthProvider) (subject password installID : String) :
    Confined (createAccountAndToken c provider subject password installID) := by
  unfold createAccountAndToken
  simp only [perform, Prog.perform_bind]
  refine ⟨rfl, fun r => ?_⟩
  cases r with
  | error err => trivial
  | ok accountID =>
    refine ⟨rfl, fun r => ?_⟩
    cases r with
    | error err => trivial
    | ok identityID =>
      refine (confined_hashPassword password).bind fun r => ?_
      cases r with
      | error err => trivial
      | ok passwordHash =>
        refine ⟨rfl, fun now => (confined_newToken c accountID installID).bind fun r => ?_⟩
        cases r with
        | error err => trivial
        | ok made =>
          refine ⟨rfl, fun r => ?_⟩
          cases r <;> trivial

theorem confined_guestLogin (identity : Identity) (installID : String) : Confined (guestLogin c identity installID) := by
  refine (confined_issueToken c identity.accountID installID).bind fun r => ?_
  cases r <;> trivial

theorem confined_guestAuthenticateCore (request : GuestAuthenticateRequest) : Confined (guestAuthenticateCore c request) := by
  unfold guestAuthenticateCore
  simp only [perform, Prog.perform_bind]
  refine ⟨rfl, fun r => ?_⟩
  cases r with
  | ok identity => exact confined_guestLogin c identity _
  | error err =>
    dsimp only
    split
    · trivial
    refine (confined_createAccountAndToken c _ _ _ _).bind fun r => ?_
    cases r with
    | ok made => trivial
    | error createErr =>
      refine ⟨rfl, fun r => ?_⟩
      cases r with
      | error err => trivial
      | ok identity => exact confined_guestLogin c identity _

theorem confined_passwordLogin (identity : Identity) (password installID : String) :
    Confined (passwordLogin c identity password installID) := by
  unfold passwordLogin
  split
  · trivial
  refine (confined_issueToken c identity.accountID installID).bind fun r => ?_
  cases r <;> trivial

theorem confined_passwordAuthenticateCore (request : PasswordAuthenticateRequest) :
    Confined (passwordAuthenticateCore c request) := by
  unfold passwordAuthenticateCore
  dsimp only
  split
  · trivial
  simp only [perform, Prog.perform_bind, Prog.pure_eq]
  refine ⟨rfl, fun r => ?_⟩
  cases r with
  | ok identity => exact confined_passwordLogin c identity _ _
  | error err =>
    dsimp only
    split
    · trivial
    refine (confined_createAccountAndToken c _ _ _ _).bind fun r => ?_
    cases r with
    | ok made => trivial
    | error createErr =>
      refine ⟨rfl, fun r => ?_⟩
      cases r with
      | error err => trivial
      | ok identity => exact confined_passwordLogin c identity _ _

theorem confined_refreshAuthenticateCore (request : RefreshAuthenticateRequest) :
    Confined (refreshAuthenticateCore c request) := by
  unfold refreshAuthenticateCore
  simp only [perform, Prog.perform_bind]
  refine ⟨rfl, fun now => ⟨rfl, fun r => ?_⟩⟩
  cases r with
  | error err => trivial
  | ok old =>
    dsimp only
    split
    · trivial
    refine (confined_newToken c old.accountID request.installID).bind fun r => ?_
    cases r with
    | error err => trivial
    | ok made =>
      refine (confined_rotate old.id now made.1).bind fun r => ?_
      cases r <;> trivial

theorem confined_revokeRefreshTokenCore (request : RevokeRefreshTokenRequest) :
    Confined (revokeRefreshTokenCore c request) := by
  unfold revokeRefreshTokenCore
  simp only [perform, Prog.perform_bind]
  refine ⟨rfl, fun now => ⟨rfl, fun r => ?_⟩⟩
  cases r with
  | error err => trivial
  | ok old =>
    dsimp only
    split
    · trivial
    refine ⟨rfl, fun now => ⟨rfl, fun r => ?_⟩⟩
    cases r <;> trivial

theorem confined_core (request : Request) : Confined (request.core c) := by
  cases request with
  | guest r => exact confined_guestAuthenticateCore c r
  | password r => exact confined_passwordAuthenticateCore c r
  | refresh r => exact confined_refreshAuthenticateCore c r
  | revoke r => exact confined_revokeRefreshTokenCore c r
  | clientLogin r =>
    simp only [Request.core, clientLoginAuthenticateCore]
    split
    · refine (confined_guestAuthenticateCore c _).bind fun r => ?_
      cases r <;> trivial
    · refine (confined_passwordAuthenticateCore c _).bind fun r => ?_
      cases r <;> trivial
    · trivial
  | clientRefresh r =>
    refine (confined_refreshAuthenticateCore c _).bind fun r => ?_
    cases r <;> trivial

theorem spares_core (request : Request) : Spares (request.core c) := by
  refine (confined_core c request).mono fun cmd hcmd => ?_
  cases cmd with
  | insertRecord _ | deleteStale _ _ | claim _ _ _ _ _ | complete _ _ _ _ | release _ _ | renew _ _ _ _
  | recoverExpired _ | expireRecord _ => cases hcmd
  | _ => rfl

end

end GameServer.UserCenter
