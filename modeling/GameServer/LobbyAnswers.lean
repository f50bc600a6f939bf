import GameServer.LobbyReplay
import GameServer.LobbyRestore

/-!
# What a repeated request is told

`settlementResult` reads the assets as they are when it answers, so a repeated
settlement is answered as the first time only as long as no other settlement of
the player has been applied. `restore` compares one number, the larger of the
two versions of a snapshot, and takes a change of the smaller one for none.
-/

namespace GameServer.Lobby

/-! ## Repeated settlements -/

/-- What is left of `w` in a later world: its entries; some assets of each player;
and the very assets of a player whose number of entries is the same. -/
structure Later (w w' : World) : Prop where
  ledger : LedgerGrows w w'
  owned : ∀ a ∈ w.assets, ∃ a' ∈ w'.assets, a'.playerID = a.playerID
  entries : ∀ playerID, w.entries playerID ≤ w'.entries playerID
  same : ∀ a ∈ w.assets, w'.entries a.playerID = w.entries a.playerID → a ∈ w'.assets

theorem Later.refl (w : World) : Later w w where
  ledger := fun _ hx => hx
  owned := fun a ha => ⟨a, ha, rfl⟩
  entries := fun _ => Nat.le_refl _
  same := fun _ ha _ => ha

theorem Later.trans (a b c : World) (h₁ : Later a b) (h₂ : Later b c) : Later a c where
  ledger := ledgerGrows_trans a b c h₁.ledger h₂.ledger
  owned := by
    intro x hx
    obtain ⟨y, hy, hyx⟩ := h₁.owned x hx
    obtain ⟨z, hz, hzy⟩ := h₂.owned y hy
    exact ⟨z, hz, hzy.trans hyx⟩
  entries := fun playerID => Nat.le_trans (h₁.entries playerID) (h₂.entries playerID)
  same := by
    intro x hx hsame
    have hab := h₁.entries x.playerID
    have hbc := h₂.entries x.playerID
    exact h₂.same x (h₁.same x hx (by omega)) (by omega)

theorem later_congr {w w' : World} (ha : w'.assets = w.assets) (hl : w'.ledger = w.ledger) : Later w w' := by
  have hentries : ∀ playerID, w'.entries playerID = w.entries playerID := by
    intro playerID
    unfold World.entries
    rw [hl]
  exact ⟨fun x hx => hl ▸ hx, fun a hmem => ⟨a, ha ▸ hmem, rfl⟩, fun p => Nat.le_of_eq (hentries p).symm,
    fun a hmem _ => ha ▸ hmem⟩

theorem later_createTx {w w' : World} {p : Player} {a : Assets} (h : w.createTx p a = .ok w') : Later w w' := by
  obtain ⟨players, assets, -, ha, rfl⟩ := createTx_ok h
  have hkeep : ∀ x ∈ w.assets, x ∈ assets := fun x hx => (Coll.mem_insertOne ha x).mpr (.inr hx)
  exact ⟨fun _ hx => hx, fun x hx => ⟨x, hkeep x hx, rfl⟩, fun _ => Nat.le_refl _, fun x hx _ => hkeep x hx⟩

theorem later_settleTx {w w' : World} {s : Settlement} (h : w.settleTx s = .ok w') : Later w w' := by
  obtain ⟨ledger, a, b, player, hl, ha, hb, -, -, rfl⟩ := settleTx_ok h
  obtain ⟨-, hafil⟩ := Coll.mem_of_findOne ha
  have hapid := deltaFilter_playerID hafil
  have hbpid := incAssets_playerID hb
  have hmem := mem_settled ha hb
  refine ⟨fun x hx => (Coll.mem_insertOne hl x).mpr (.inr hx), fun x hx => ?_, fun playerID => ?_, fun x hx hsame => ?_⟩
  · by_cases hown : x.playerID = s.playerID
    · exact ⟨b, (hmem b).mpr (.inr rfl), by rw [hbpid, hapid, hown]⟩
    · exact ⟨x, (hmem x).mpr (.inl ⟨hx, hown⟩), rfl⟩
  · rw [entries_insert hl]
    exact Nat.le_add_right _ _
  · rw [entries_insert hl] at hsame
    -- the new entry counts for its player, so these are the assets of another
    refine (hmem x).mpr (.inl ⟨hx, fun hown => ?_⟩)
    rw [if_pos hown.symm] at hsame
    omega

theorem later_exec {i : Nat} {e : Env} {w w' : World} {c : Cmd} {r : Ans c} (h : exec i e w c = some (r, w')) :
    Later w w' := by
  have hclock : Later w { w with clock := w.clock + e.delay } := later_congr rfl rfl
  rcases exec_cases h with ⟨-, ha, hl, -⟩ | ⟨p, a, rfl, htx⟩ | ⟨s, rfl, htx⟩ | ⟨s, rfl, rfl⟩
  · exact later_congr ha hl
  · exact hclock.trans _ _ _ (later_createTx htx)
  · exact hclock.trans _ _ _ (later_settleTx htx)
  · exact later_congr rfl rfl

def Served (requests : List Request) (_ : Nat) (_ : Env) (_ : World) (c : Cmd) : Prop := ∃ r ∈ requests, Issued r c

abbrev LaterSafe (requests : List Request) (i : Nat) (post : World → Except GoErr Reply → Prop) : Handler → World → Prop :=
  Pool.Safe exec (Served requests) Ledgered (fun _ => Later) i post

/-- The first answer to a settlement: the request has its entry, and balance and
version are those of the assets at that moment. -/
def Told (q : SettlementRequest) (w : World) (res : Except GoErr Reply) : Prop :=
  ∀ settlementID playerID assetType balance version,
    res = .ok (.settlement settlementID playerID assetType balance version false) →
      q.valid = true ∧ Matched q w ∧ settlementID = q.settlementID ∧ playerID = q.playerID ∧ assetType = q.assetType ∧
        ∃ a ∈ w.assets, a.playerID = playerID ∧ balance = a.balance assetType ∧ version = a.assetVersion

variable {requests : List Request} {i : Nat} {q : SettlementRequest} {w : World}

theorem told_error (err : GoErr) : Told q w (.error err) := fun _ _ _ _ _ h => nomatch h

theorem laterSafe_call {post : World → Except GoErr Reply → Prop} {c : Cmd} {k : Ans c → Handler}
    (h : ∀ e w₁ r w₂, Later w w₁ → exec i e w₁ c = some (r, w₂) → LaterSafe requests i post (k r) w₂) :
    LaterSafe requests i post (.call c k) w := by
  rintro e w₁ r w₂ hr hi ⟨q, -, hq⟩ hx
  exact ⟨ledgered_exec hi hq hx, fun _ _ => later_exec hx, h e w₁ r w₂ hr hx⟩

theorem told_settlementResult (s : Settlement) (replayed : Bool)
    (hs : replayed = false → q.valid = true ∧ Matched q w ∧ s.id = q.settlementID ∧ s.playerID = q.playerID ∧
      s.assetType = q.assetType) : LaterSafe requests i (Told q) (settlementResult s replayed) w := by
  refine laterSafe_call fun e w₁ r w₂ hr hx => ?_
  cases r with
  | error err => exact told_error err
  | ok a =>
    intro settlementID playerID assetType balance version hreply
    cases hreply
    obtain ⟨hv, hm, hid, hplayer, htype⟩ := hs rfl
    obtain ⟨hown, hmem⟩ := Restore.exec_findAssets hx
    exact ⟨hv, (hm.grow hr.ledger).grow (later_exec hx).ledger, hid, hplayer, htype, a, hmem, hown, rfl, rfl⟩

theorem matched_of_settled {e : Env} {w w' : World} {now : Time}
    (hx : exec i e w (.settleTx (q.toSettlement now)) = some (.ok (), w')) : Matched q w' := by
  rcases exec_inv hx with hx | ⟨text, -, hfail, -⟩
  · simp only [World.answer] at hx
    cases htx : World.settleTx { w with clock := w.clock + e.delay } (q.toSettlement now) with
    | error err =>
      rw [htx] at hx
      cases hx
    | ok w₁ =>
      rw [htx] at hx
      obtain ⟨-, rfl⟩ := Prod.mk.inj hx
      obtain ⟨ledger, a, b, player, hl, -, -, -, -, rfl⟩ := settleTx_ok htx
      exact ⟨_, (Coll.mem_insertOne hl _).mpr (.inl rfl), rfl, by simp [Settlement.differs, SettlementRequest.toSettlement]⟩
  · cases hfail

theorem told_settlement (q : SettlementRequest) (w : World) : LaterSafe requests i (Told q) (settlement (some q)) w := by
  cases hv : q.valid with
  | false =>
    simp only [settlement, hv, Bool.not_false, if_true]
    exact told_error _
  | true =>
    simp only [settlement, hv, perform, Prog.perform_bind, Bool.not_true]
    refine laterSafe_call fun _ _ now w₁ _ _ => laterSafe_call fun _ _ found w₂ _ _ => ?_
    cases found with
    | ok existing =>
      dsimp only
      split
      · exact told_error _
      · exact told_settlementResult existing true fun h => absurd h (by decide)
    | error err =>
      dsimp only
      split
      · exact told_error _
      refine laterSafe_call fun e w₃ settled w₄ _ hx => ?_
      cases settled with
      | ok u => exact told_settlementResult _ false fun _ => ⟨hv, matched_of_settled hx, rfl, rfl, rfl⟩
      | error err =>
        dsimp only
        split
        · refine laterSafe_call fun _ _ s _ _ _ => ?_
          cases s with
          | error err => exact told_error _
          | ok s => exact told_settlementResult s true fun h => absurd h (by decide)
        · exact told_error _

theorem told_handler {r : Request} (w : World) :
    LaterSafe requests i (fun w res => ∀ q, r = .settlement (some q) → Told q w res) r.handler w := by
  have hany : LaterSafe requests i (fun _ _ => True) r.handler w :=
    Pool.Safe.of_uses (P := fun _ => True) (fun _ _ _ _ => trivial)
      (fun _ _ _ _ _ _ hi _ ⟨_, _, hq⟩ hx => ⟨ledgered_exec hi hq hx, fun _ _ => later_exec hx, trivial⟩)
      (Prog.uses_true _) trivial
  cases r with
  | ensurePlayer payload => exact hany.mono fun _ _ _ q hq => nomatch hq
  | settlement payload =>
    cases payload with
    | none => exact hany.mono fun _ _ _ q hq => nomatch hq
    | some q =>
      refine (told_settlement q w).mono fun w res htold q' hq' => ?_
      cases hq'
      exact htold

theorem alone_repeated (hv : q.valid = true) (hm : Matched q w) {a : Assets} (ha : a ∈ w.assets)
    (hown : a.playerID = q.playerID) (es : Nat → Env) :
    (settlement (some q)).alone (fun e w c => World.answer w c e) es w =
      (.ok (.settlement q.settlementID q.playerID q.assetType (a.balance q.assetType) a.assetVersion true), w) := by
  obtain ⟨x, hx, hid, hsame⟩ := hm
  have hfind : w.ledger.findOne (·.id == q.settlementID) = some x :=
    Coll.findOne_eq_some hx (by simpa using hid) fun y _ hy => by
      simp [ledgerIndexes, hid, (by simpa using hy : y.id = q.settlementID)]
  have hassets : w.assets.findOne (·.playerID == q.playerID) = some a :=
    Coll.findOne_eq_some ha (by simpa using hown) fun y _ hy => by
      simp [assetIndexes, hown, (by simpa using hy : y.playerID = q.playerID)]
  obtain ⟨hplayer, htype⟩ : x.playerID = q.playerID ∧ x.assetType = q.assetType := by
    have hfields := of_decide_eq_false hsame
    simp only [not_or, not_not] at hfields
    exact ⟨hfields.1, hfields.2.1⟩
  have hdiff : x.differs (q.toSettlement w.clock) = false := (differs_toSettlement x q w.clock).trans hsame
  have hlookup : w.findBySettlementID (q.toSettlement w.clock).id = .ok x := by
    unfold World.findBySettlementID
    rw [show (q.toSettlement w.clock).id = q.settlementID from rfl, hfind]
  have hread : w.findAssetsByPlayerID x.playerID = .ok a := by
    unfold World.findAssetsByPlayerID
    rw [hplayer, hassets]
  simp only [settlement, settlementResult, hv, perform, Prog.perform_bind, Prog.alone, World.answer, Bool.not_true,
    Bool.false_eq_true, if_false, hlookup, hdiff, hread]
  rw [hid, hplayer, htype]
  rfl

/-- A settlement that has been applied and answered is, after any run, answered the
same way again exactly if no other settlement of the player has been applied since
the first answer. The repetition leaves everything as it is. -/
theorem settlement_repeats_iff (links : AList fun _ : String => List String) (clock : Time) (requests : List Request)
    (sched : List (Nat × Env)) (i : Nat) (q : SettlementRequest) (w : World) (settlementID playerID assetType : String)
    (balance : Int64) (version : UInt64) (hq : requests[i]? = some (.settlement (some q)))
    (hret : (i, .ok (.settlement settlementID playerID assetType balance version false), w) ∈
      (reached links clock requests sched).returned) (es : Nat → Env) :
    let w' := (reached links clock requests sched).world
    let again := (settlement (some q)).alone (fun e w c => World.answer w c e) es w'
    again.2 = w' ∧
      (again.1 = .ok (.settlement settlementID playerID assetType balance version true) ↔
        w'.entries playerID = w.entries playerID) := by
  intro w' again
  let post : Nat → World → Except GoErr Reply → Prop :=
    fun i w res => ∀ r, requests[i]? = some r → ∀ q, r = .settlement (some q) → Told q w res
  have hstart : Pool.Good exec (Served requests) Ledgered (fun _ => Later) post
      (State.init (World.init links clock) requests) := by
    refine Pool.good_start (fun _ => Later.refl) (ledgered_init links clock) (Pool.forall_map fun i r hr => ?_)
    refine (told_handler _).mono fun w res h r' hr' => ?_
    obtain rfl : r = r' := Option.some.inj (hr.symm.trans hr')
    exact h
  have hgood := Pool.safe_run (fun _ => Later.refl) (fun _ => Later.trans) hstart (along_issued _ requests sched)
  obtain ⟨hv, hm, rfl, rfl, rfl, a, ha, hown, rfl, rfl⟩ := hgood.post _ hret _ hq q rfl _ _ _ _ _ rfl
  have hlater : Later w w' := hgood.past _ hret
  have hversion := (hgood.inv _ hret).version a ha
  obtain ⟨b, hb, hbown⟩ := hlater.owned a ha
  have hagain : again = _ := alone_repeated hv (hm.grow hlater.ledger) hb (hbown.trans hown) es
  rw [hagain]
  refine ⟨rfl, ?_⟩
  -- the asset version counts the entries, both at the first answer and now
  have hversion' := hgood.world.version b hb
  rw [hown] at hversion
  rw [hbown, hown] at hversion'
  constructor
  · intro hsame
    simp only [Except.ok.injEq, Reply.settlement.injEq] at hsame
    rw [hsame.2.2.2.2.1] at hversion'
    exact Nat.add_left_cancel (hversion'.symm.trans hversion)
  · intro hsame
    have hkept : a ∈ w'.assets := hlater.same a ha (by rw [hown]; exact hsame)
    obtain rfl : a = b := Coll.eq_of_clash hkept hb (by simp [assetIndexes, hbown])
    rfl

def settledTwice : List Request :=
  [.ensurePlayer (some "account-1"),
    .settlement (some ⟨"settlement-1", "player-1", "gold", 125, "reason", "battle"⟩),
    .settlement (some ⟨"settlement-2", "player-1", "gold", 10, "reason", "battle"⟩)]

def settlement125 : SettlementRequest := ⟨"settlement-1", "player-1", "gold", 125, "reason", "battle"⟩

theorem settlement_repeats_at_once :
    (∃ w, (1, .ok (.settlement "settlement-1" "player-1" "gold" 125 2 false), w) ∈
        (reached ∅ 1 settledTwice (playerThen [1, 1, 1, 1])).returned) ∧
      ((settlement (some settlement125)).alone (fun e w c => World.answer w c e) (fun _ => {})
        (reached ∅ 1 settledTwice (playerThen [1, 1, 1, 1])).world).1 =
          .ok (.settlement "settlement-1" "player-1" "gold" 125 2 true) := by
  have hans : (1, .ok (.settlement "settlement-1" "player-1" "gold" 125 2 false), [entry125]) ∈
      answers (reached ∅ 1 settledTwice (playerThen [1, 1, 1, 1])) := by decide
  have hdocs : (reached ∅ 1 settledTwice (playerThen [1, 1, 1, 1])).world.ledger.docs = [entry125] := by decide
  obtain ⟨w, hw, hwdocs⟩ := returned_of_mem_answers hans
  refine ⟨⟨w, hw⟩, (settlement_repeats_iff ∅ 1 settledTwice _ 1 settlement125 w _ _ _ _ _ rfl hw fun _ => {}).2.mpr ?_⟩
  unfold World.entries
  rw [hdocs, hwdocs]

theorem repeated_settlement_differs :
    (∃ w, (1, .ok (.settlement "settlement-1" "player-1" "gold" 125 2 false), w) ∈
        (reached ∅ 1 settledTwice (playerThen [1, 1, 1, 1, 2, 2, 2, 2])).returned) ∧
      ((settlement (some settlement125)).alone (fun e w c => World.answer w c e) (fun _ => {})
        (reached ∅ 1 settledTwice (playerThen [1, 1, 1, 1, 2, 2, 2, 2])).world).1 =
          .ok (.settlement "settlement-1" "player-1" "gold" 135 3 true) := by
  have hans : (1, .ok (.settlement "settlement-1" "player-1" "gold" 125 2 false), [entry125]) ∈
      answers (reached ∅ 1 settledTwice (playerThen [1, 1, 1, 1, 2, 2, 2, 2])) := by decide
  obtain ⟨w, hw, -⟩ := returned_of_mem_answers hans
  exact ⟨⟨w, hw⟩, by decide⟩

/-! ## Restores without a payload -/

structure LobbyStateSnapshot.Same (p q : LobbyStateSnapshot) : Prop where
  playerID : p.playerID = q.playerID
  accountID : p.accountID = q.accountID
  nickname : p.nickname = q.nickname
  region : p.region = q.region
  profileVersion : p.profileVersion = q.profileVersion
  assetVersion : p.assetVersion = q.assetVersion
  currency : ∀ assetType, p.currency.lookup assetType = q.currency.lookup assetType

/-- `s₂` is a later snapshot of the player of `s₁`: the profile goes with its
version, the currencies go with theirs, and neither version goes back. -/
structure Follows (s₁ s₂ : Snapshot) : Prop where
  player : s₂.player.id = s₁.player.id
  profileLe : s₁.player.profileVersion ≤ s₂.player.profileVersion
  assetLe : s₁.assets.assetVersion ≤ s₂.assets.assetVersion
  profile : s₂.player.profileVersion = s₁.player.profileVersion →
    s₂.player.accountID = s₁.player.accountID ∧ s₂.player.nickname = s₁.player.nickname ∧ s₂.player.region = s₁.player.region
  currency : s₂.assets.assetVersion = s₁.assets.assetVersion →
    ∀ assetType, s₂.assets.currency.lookup assetType = s₁.assets.currency.lookup assetType

theorem toNat_stateVersion (s : Snapshot) :
    s.stateVersion.toNat = max s.player.profileVersion.toNat s.assets.assetVersion.toNat := by
  unfold Snapshot.stateVersion
  split
  · rename_i h
    rw [ge_iff_le, UInt64.le_iff_toNat_le] at h
    omega
  · rename_i h
    rw [ge_iff_le, UInt64.le_iff_toNat_le] at h
    omega

theorem Follows.same_iff {s₁ s₂ : Snapshot} (h : Follows s₁ s₂) :
    (marshalStateSnapshot s₂).Same (marshalStateSnapshot s₁) ↔
      s₂.player.profileVersion = s₁.player.profileVersion ∧ s₂.assets.assetVersion = s₁.assets.assetVersion := by
  constructor
  · intro hsame
    exact ⟨hsame.profileVersion, hsame.assetVersion⟩
  · rintro ⟨hprofile, hasset⟩
    obtain ⟨haccount, hnickname, hregion⟩ := h.profile hprofile
    exact ⟨h.player, haccount, hnickname, hregion, hprofile, hasset, h.currency hasset⟩

theorem alone_restore_stored {s : Snapshot} (hs : snapshotDocumentFromDomain s ∈ w.snapshots) (hid : s.player.id ≠ "")
    (last : UInt64) (es : Nat → Env) :
    ((restore (some ⟨s.player.id, last⟩)).alone (fun e w c => World.answer w c e) es w).1 =
      .ok (.restore (restoreResponse ⟨s.player.id, last⟩ (snapshotDomainFromDocument (snapshotDocumentFromDomain s)))) := by
  have hfind : w.snapshots.findOne (·.playerID == s.player.id) = some (snapshotDocumentFromDomain s) :=
    Coll.findOne_eq_some hs (by simp [snapshotDocumentFromDomain]) fun y _ hy => by
      simp [snapshotIndexes, snapshotDocumentFromDomain, (by simpa using hy : y.playerID = s.player.id)]
  have hne : (⟨s.player.id, last⟩ : RestoreRequest).playerID ≠ "" := hid
  rw [Restore.restore_eq hne]
  simp only [Prog.alone, World.answer, World.findSnapshotByPlayerID, hfind]
  rfl

/-- For a client that holds the payload of `s₁`, the answer NOOP about the stored
`s₂` leaves nothing out exactly if every change of a version is one of the larger
of the two. -/
theorem noop_sound_iff (w : World) (s₁ s₂ : Snapshot) (h : Follows s₁ s₂) (hid : s₁.player.id ≠ "")
    (hstored : snapshotDocumentFromDomain s₂ ∈ w.snapshots) (es : Nat → Env) :
    (∀ response, ((restore (some ⟨s₁.player.id, s₁.stateVersion⟩)).alone (fun e w c => World.answer w c e) es w).1 =
        .ok (.restore response) → response.mode = .noop → (marshalStateSnapshot s₂).Same (marshalStateSnapshot s₁)) ↔
      (s₁.player.profileVersion < s₂.player.profileVersion ∨ s₁.assets.assetVersion < s₂.assets.assetVersion →
        s₁.stateVersion < s₂.stateVersion) := by
  have hanswer := alone_restore_stored hstored (h.player ▸ hid) s₁.stateVersion es
  rw [h.player] at hanswer
  rw [hanswer, h.same_iff]
  have hmode : (restoreResponse ⟨s₁.player.id, s₁.stateVersion⟩
      (snapshotDomainFromDocument (snapshotDocumentFromDomain s₂))).mode = .noop ↔ s₁.stateVersion = s₂.stateVersion := by
    simp only [restoreResponse]
    exact ite_eq_left_iff.trans (by simp [Snapshot.stateVersion, snapshotDomainFromDocument, snapshotDocumentFromDomain])
  have hprofile := h.profileLe
  have hasset := h.assetLe
  have h₁ := toNat_stateVersion s₁
  have h₂ := toNat_stateVersion s₂
  simp only [UInt64.le_iff_toNat_le, UInt64.lt_iff_toNat_lt, ← UInt64.toNat_inj] at hprofile hasset hmode ⊢
  constructor
  · intro hsound hchanged
    refine Nat.lt_of_not_le fun hnot => ?_
    -- equal state versions are answered with NOOP, whichever version has changed below them
    have hsame := hsound _ rfl (hmode.mpr (by omega))
    omega
  · intro hgrows response hresponse hnoop
    cases hresponse
    have heq := hmode.mp hnoop
    omega

def snapshotAt (profileVersion assetVersion : UInt64) (gold : Int64) : Snapshot where
  player :=
    { id := "player-1", accountID := "account-1", nickname := "Player", region := "global", isDefault := true
      profileVersion, createdAt := 1, updatedAt := 1 }
  assets := { playerID := "player-1", currency := (∅ : Currency).insert "gold" gold, assetVersion, updatedAt := 1 }
  schemaVersion := 1
  createdAt := 1

theorem noop_sound_new_player :
    Follows (snapshotAt 1 1 0) (snapshotAt 1 2 125) ∧
      ∀ response, ((restore (some ⟨"player-1", 1⟩)).alone (fun e w c => World.answer w c e) (fun _ => {})
        ((World.init ∅ 1).saveSnapshot (snapshotAt 1 2 125))).1 = .ok (.restore response) → response.mode = .noop →
          (marshalStateSnapshot (snapshotAt 1 2 125)).Same (marshalStateSnapshot (snapshotAt 1 1 0)) := by
  have hfollows : Follows (snapshotAt 1 1 0) (snapshotAt 1 2 125) :=
    ⟨rfl, by decide, by decide, fun _ => ⟨rfl, rfl, rfl⟩, fun h => absurd h (by decide)⟩
  refine ⟨hfollows, ?_⟩
  exact (noop_sound_iff _ _ _ hfollows (by decide) (Coll.mem_upsert.mpr (.inl rfl)) fun _ => {}).mpr fun _ => by decide

theorem noop_hides_settlement :
    Follows (snapshotAt 5 2 0) (snapshotAt 5 3 125) ∧
      (∃ response, ((restore (some ⟨"player-1", (snapshotAt 5 2 0).stateVersion⟩)).alone (fun e w c => World.answer w c e)
        (fun _ => {}) ((World.init ∅ 1).saveSnapshot (snapshotAt 5 3 125))).1 = .ok (.restore response) ∧
          response.mode = .noop ∧ response.snapshot = none) ∧
      ¬ (marshalStateSnapshot (snapshotAt 5 3 125)).Same (marshalStateSnapshot (snapshotAt 5 2 0)) := by
  refine ⟨⟨rfl, by decide, by decide, fun _ => ⟨rfl, rfl, rfl⟩, fun h => absurd h (by decide)⟩, ⟨_, rfl, by decide, by decide⟩,
    fun h => ?_⟩
  exact absurd h.assetVersion (by decide)

end GameServer.Lobby
