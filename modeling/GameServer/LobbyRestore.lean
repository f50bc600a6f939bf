import GameServer.LobbySound

/-!
# Snapshots rebuilt beside settlements

`restore` answers with the stored snapshot, and rebuilds a missing one from the
player and its assets, in three reads and a write that no transaction holds
together. A settlement that commits between the read of the assets and the
write is overwritten in the snapshot, and stays so until the next settlement.
In runs without such a commit the snapshot always holds what the assets hold.
-/

namespace GameServer.Lobby

inductive Call
  | request (r : Request)
  | restore (payload : Option RestoreRequest)

def Call.handler : Call → Handler
  | .request r => r.handler
  | .restore p => Lobby.restore p

def State.ofCalls (w : World) (calls : List Call) : State := Pool.start w (calls.map Call.handler)

structure Consistent (playerID : String) (w : World) : Prop where
  player : ∃ p ∈ w.players, p.id = playerID
  assets : ∃ a ∈ w.assets, a.playerID = playerID
  fresh : ∀ d ∈ w.snapshots, d.playerID = playerID →
    ∃ a ∈ w.assets, a.playerID = playerID ∧ a.assetVersion = d.assetVersion ∧ a.currency = d.currency

/-- The handler has read the assets of the player and has yet to save the
snapshot it builds from them. -/
def rebuilding (playerID : String) : Handler → Bool
  | .call .now k =>
    match k (0 : Time) with
    | .call (.saveSnapshot s) _ => s.player.id == playerID
    | _ => false
  | .call (.saveSnapshot s) _ => s.player.id == playerID
  | _ => false

/-- The condition on a run: no settlement of the player runs its transaction
while a restore is rebuilding the snapshot. -/
def undisturbed (playerID : String) (s : State) (a : Nat × Env) : Bool :=
  match s.procs[a.1]? with
  | some (.call (.settleTx t) _) => t.playerID != playerID || s.procs.all fun p => !rebuilding playerID p
  | _ => true

namespace Restore

/-! ## The stages of a restore -/

def afterAssets (request : RestoreRequest) (player : Player) : Except GoErr Assets → Handler
  | .error assetErr => .ret (.error assetErr)
  | .ok assets => rebuild request player assets

def afterPlayer (request : RestoreRequest) : Except GoErr Player → Handler
  | .error playerErr => .ret (.error playerErr)
  | .ok player => .call (.findAssetsByPlayerID request.playerID) (afterAssets request player)

def afterSnapshot (request : RestoreRequest) : Except GoErr Snapshot → Handler
  | .ok s => .ret (.ok (.restore (restoreResponse request s)))
  | .error err =>
    if !err.is errPlayerNotFound then .ret (.error err)
    else .call (.findPlayerByID request.playerID) (afterPlayer request)

theorem restore_eq {request : RestoreRequest} (h : request.playerID ≠ "") :
    restore (some request) = .call (.findSnapshotByPlayerID request.playerID) (afterSnapshot request) := by
  simp only [restore, h, if_false, perform, Prog.perform_bind]
  congr 1
  funext r
  cases r with
  | ok s => rfl
  | error err =>
    simp only [afterSnapshot]
    split
    · rfl
    · congr 1
      funext r
      cases r with
      | error playerErr => rfl
      | ok player =>
        simp only [afterPlayer]
        congr 1
        funext r
        cases r <;> rfl

theorem rebuild_eq (request : RestoreRequest) (player : Player) (assets : Assets) :
    rebuild request player assets = .call .now fun now =>
      .call (.saveSnapshot { player, assets, schemaVersion := 1, createdAt := now }) fun _ =>
        .ret (.ok (.restore (restoreResponse request { player, assets, schemaVersion := 1, createdAt := now }))) := rfl

section
variable (playerID : String)

def Mild : Cmd → Prop
  | .createTx p a => a.playerID = p.id
  | .saveSnapshot s => s.player.id ≠ playerID
  | _ => True

def Holds (w : World) (s : Snapshot) : Prop := s.player.id = playerID → s.assets.playerID = playerID ∧ s.assets ∈ w.assets

inductive Stage (w : World) : Handler → Prop
  | mild {p : Handler} : p.Uses (Mild playerID) → Stage w p
  | snapshot {request : RestoreRequest} :
      Stage w (.call (.findSnapshotByPlayerID request.playerID) (afterSnapshot request))
  | player {request : RestoreRequest} : Stage w (.call (.findPlayerByID request.playerID) (afterPlayer request))
  | assets {request : RestoreRequest} {player : Player} : player.id = request.playerID →
      Stage w (.call (.findAssetsByPlayerID request.playerID) (afterAssets request player))
  | clock {request : RestoreRequest} {player : Player} {assets : Assets} :
      Holds playerID w { player, assets, schemaVersion := 1, createdAt := 0 } → Stage w (rebuild request player assets)
  | save {s : Snapshot} {reply : Reply} : Holds playerID w s → Stage w (.call (.saveSnapshot s) fun _ => .ret (.ok reply))

variable {playerID}

theorem stage_of_quiet {w w' : World} {p : Handler} (h : Stage playerID w p) (hq : rebuilding playerID p = false) :
    Stage playerID w' p := by
  cases h with
  | mild hu => exact .mild hu
  | snapshot => exact .snapshot
  | player => exact .player
  | assets hid => exact .assets hid
  | clock => exact .clock fun hid => absurd hid (by simpa [rebuild_eq, rebuilding] using hq)
  | save => exact .save fun hid => absurd hid (by simpa [rebuilding] using hq)

def Keeps (playerID : String) (w w' : World) : Prop := ∀ a ∈ w.assets, a.playerID = playerID → a ∈ w'.assets

theorem stage_of_keeps {w w' : World} {p : Handler} (h : Stage playerID w p) (hk : Keeps playerID w w') :
    Stage playerID w' p := by
  have hold : ∀ s, Holds playerID w s → Holds playerID w' s :=
    fun s hs hid => ⟨(hs hid).1, hk _ (hs hid).2 (hs hid).1⟩
  cases h with
  | mild hu => exact .mild hu
  | snapshot => exact .snapshot
  | player => exact .player
  | assets hid => exact .assets hid
  | clock hs => exact .clock (hold _ hs)
  | save hs => exact .save (hold _ hs)

/-! ## One step -/

theorem exec_findPlayer {i : Nat} {e : Env} {w w' : World} {id : String} {p : Player}
    (h : exec i e w (.findPlayerByID id) = some (.ok p, w')) : p.id = id := by
  rcases exec_inv h with h | ⟨text, -, h, -⟩
  · simp only [World.answer, World.findPlayerByID, Prod.mk.injEq] at h
    obtain ⟨hr, -⟩ := h
    split at hr <;> cases hr
    rename_i hp
    simpa using (Coll.mem_of_findOne hp).2
  · cases h

theorem exec_findAssets {i : Nat} {e : Env} {w w' : World} {id : String} {a : Assets}
    (h : exec i e w (.findAssetsByPlayerID id) = some (.ok a, w')) : a.playerID = id ∧ a ∈ w'.assets := by
  rcases exec_inv h with h | ⟨text, -, h, -⟩
  · simp only [World.answer, World.findAssetsByPlayerID, Prod.mk.injEq] at h
    obtain ⟨hr, rfl⟩ := h
    split at hr <;> cases hr
    rename_i ha
    obtain ⟨hmem, hid⟩ := Coll.mem_of_findOne ha
    exact ⟨by simpa using hid, hmem⟩
  · cases h

theorem stage_next {i : Nat} {e : Env} {w w' : World} {c : Cmd} {k : Ans c → Handler} {r : Ans c}
    (h : Stage playerID w (.call c k)) (hx : exec i e w c = some (r, w')) : Stage playerID w' (k r) := by
  generalize hp : Prog.call c k = p at h
  cases h with
  | mild hu =>
    subst hp
    exact .mild (hu.2 r)
  | snapshot =>
    cases hp
    cases r with
    | ok s => exact .mild trivial
    | error err =>
      simp only [afterSnapshot]
      split
      · exact .mild trivial
      · exact .player
  | player =>
    cases hp
    cases r with
    | error playerErr => exact .mild trivial
    | ok player => exact .assets (exec_findPlayer hx)
  | assets hid =>
    cases hp
    cases r with
    | error assetErr => exact .mild trivial
    | ok assets =>
      obtain ⟨hap, hmem⟩ := exec_findAssets hx
      exact .clock fun hplayer => ⟨hap.trans (hid.symm.trans hplayer), hmem⟩
  | clock hs =>
    rw [rebuild_eq] at hp
    cases hp
    have hsame : w'.assets = w.assets := by
      cases wrote_exec hx
      rfl
    exact .save fun hid => ⟨(hs hid).1, hsame ▸ (hs hid).2⟩
  | save =>
    cases hp
    exact .mild trivial

theorem fresh_upsert {w : World} {assets : Coll assetIndexes} {d : SnapshotDocument}
    (hkeep : d.playerID ≠ playerID → ∀ a ∈ w.assets, a.playerID = playerID → a ∈ assets)
    (hd : d.playerID = playerID →
      ∃ a ∈ assets, a.playerID = playerID ∧ a.assetVersion = d.assetVersion ∧ a.currency = d.currency)
    (hw : Consistent playerID w) : ∀ x ∈ w.snapshots.upsert d, x.playerID = playerID →
      ∃ a ∈ assets, a.playerID = playerID ∧ a.assetVersion = x.assetVersion ∧ a.currency = x.currency := by
  intro x hx hxid
  rcases Coll.mem_upsert.mp hx with rfl | ⟨hx, hne⟩
  · exact hd hxid
  · have hdid : d.playerID ≠ playerID := by simpa [snapshotIndexes, Index.on, hxid] using hne
    obtain ⟨a, ha, haid, hrest⟩ := hw.fresh x hx hxid
    exact ⟨a, hkeep hdid a ha haid, haid, hrest⟩

def Allowed (playerID : String) (w : World) : Cmd → Prop
  | .createTx p a => a.playerID = p.id
  | .saveSnapshot s => Holds playerID w s
  | _ => True

theorem Stage.allowed {w : World} {c : Cmd} {k : Ans c → Handler} (h : Stage playerID w (.call c k)) :
    Allowed playerID w c := by
  generalize hp : Prog.call c k = p at h
  cases h with
  | mild hu =>
    subst hp
    cases c with
    | createTx p a => exact hu.1
    | saveSnapshot s => exact fun hid => absurd hid hu.1
    | _ => trivial
  | snapshot | player | assets => cases hp; trivial
  | clock => rw [rebuild_eq] at hp; cases hp; trivial
  | save hs => cases hp; exact hs

theorem consistent_wrote {w w' : World} {c : Cmd} (hw : Consistent playerID w) (ha : Allowed playerID w c)
    (h : Wrote w c w') :
    Consistent playerID w' ∧ (Keeps playerID w w' ∨ ∃ t, c = .settleTx t ∧ t.playerID = playerID) := by
  cases h with
  | nothing => exact ⟨hw, .inl fun _ ha _ => ha⟩
  | linked hlink =>
    unfold World.linkPlayer at hlink
    split at hlink <;> cases hlink
    exact ⟨⟨hw.player, hw.assets, hw.fresh⟩, .inl fun _ ha _ => ha⟩
  | saved s =>
    refine ⟨⟨hw.player, hw.assets, fresh_upsert (fun _ _ ha _ => ha) (fun hid => ?_) hw⟩, .inl fun _ ha _ => ha⟩
    exact ⟨s.assets, (ha hid).2, (ha hid).1, rfl, rfl⟩
  | created htx =>
    rename_i p a
    obtain ⟨players, assets, hp, has, rfl⟩ := createTx_ok htx
    obtain ⟨x, hx, hxid⟩ := hw.player
    obtain ⟨y, hy, hyid⟩ := hw.assets
    have hne : p.id ≠ playerID := by
      intro hid
      have hclash := (Coll.insertOne_eq_some hp).2 x hx
      simp [playerIndexes, Index.and, Index.on, hid, hxid] at hclash
    have hgrow : ∀ z ∈ w.assets, z ∈ assets := fun z hz => (Coll.mem_insertOne has z).mpr (.inr hz)
    refine ⟨⟨⟨x, (Coll.mem_insertOne hp x).mpr (.inr hx), hxid⟩, ⟨y, hgrow y hy, hyid⟩,
      fresh_upsert (fun _ z hz _ => hgrow z hz) (fun hid => absurd hid hne) hw⟩, .inl fun z hz _ => hgrow z hz⟩
  | settled htx =>
    rename_i t
    obtain ⟨ledger, a, b, player, -, ha, hb, hplayer, -, rfl⟩ := settleTx_ok htx
    have hmem := mem_settled ha hb
    have hbid : b.playerID = t.playerID := by
      rw [incAssets_playerID hb]
      exact deltaFilter_playerID (Coll.mem_of_findOne ha).2
    by_cases ht : t.playerID = playerID
    · refine ⟨⟨hw.player, ⟨b, (hmem b).mpr (.inr rfl), hbid.trans ht⟩, fresh_upsert (fun hid => ?_) (fun _ => ?_) hw⟩,
        .inr ⟨t, rfl, ht⟩⟩
      · exact absurd (hplayer.trans ht) hid
      · exact ⟨b, (hmem b).mpr (.inr rfl), hbid.trans ht, rfl, rfl⟩
    · have hkeep : ∀ z ∈ w.assets, z.playerID = playerID → z ∈ w.assets.updateOne _ _ _ :=
        fun z hz hid => (hmem z).mpr (.inl ⟨hz, fun hzt => ht (hzt.symm.trans hid)⟩)
      obtain ⟨y, hy, hyid⟩ := hw.assets
      refine ⟨⟨hw.player, ⟨y, hkeep y hy hyid, hyid⟩, fresh_upsert (fun _ => hkeep) (fun hid => ?_) hw⟩, .inl hkeep⟩
      exact absurd (hplayer.symm.trans hid) ht

/-! ## Runs -/

structure Inv (playerID : String) (s : State) : Prop where
  world : Consistent playerID s.world
  stage : ∀ (i : Nat) p, s.procs[i]? = some p → Stage playerID s.world p

theorem inv_step {s : State} {a : Nat × Env} (hs : Inv playerID s) (hq : undisturbed playerID s a = true) :
    Inv playerID (Pool.step exec s a) := by
  rcases Pool.step_cases exec s a with h | ⟨c, k, r, w, hp, hx, h⟩
  · rw [h]
    exact hs
  rw [h]
  have hstage := hs.stage a.1 _ hp
  have hw : Consistent playerID { s.world with clock := s.world.clock + a.2.delay } :=
    ⟨hs.world.player, hs.world.assets, hs.world.fresh⟩
  have hallow : Allowed playerID { s.world with clock := s.world.clock + a.2.delay } c := hstage.allowed
  obtain ⟨hw', hkept⟩ := consistent_wrote hw hallow (wrote_exec hx)
  -- who holds assets of the player goes on holding them
  have hothers : ∀ (i : Nat) p, s.procs[i]? = some p → Stage playerID w p := by
    intro i p hi
    rcases hkept with hk | ⟨t, rfl, ht⟩
    · exact stage_of_keeps (hs.stage i p hi) hk
    · apply stage_of_quiet (hs.stage i p hi)
      simp only [undisturbed, hp, ht, bne_self_eq_false, Bool.false_or, List.all_eq_true] at hq
      simpa using hq p (List.mem_of_getElem? hi)
  refine ⟨hw', fun i p hi => ?_⟩
  by_cases hia : a.1 = i
  · subst hia
    rw [List.getElem?_set_self (List.getElem?_eq_some_iff.mp hp).1, Option.some.injEq] at hi
    exact hi ▸ stage_next hstage hx
  · rw [List.getElem?_set_ne hia] at hi
    exact hothers i p hi

theorem mild_of_issued {q : Request} {c : Cmd} (h : Issued q c) : Mild playerID c := by
  cases c with
  | createTx p a => exact h.1
  | saveSnapshot s => exact h.elim
  | _ => trivial

theorem stage_handler (w : World) (call : Call) : Stage playerID w call.handler := by
  cases call with
  | request r => exact .mild ((handler_issued r).mono fun c => mild_of_issued)
  | restore payload =>
    cases payload with
    | none => exact .mild trivial
    | some request =>
      by_cases h : request.playerID = ""
      · refine .mild ?_
        simp only [Call.handler, restore, h, if_true]
        trivial
      · rw [Call.handler, restore_eq h]
        exact .snapshot

theorem inv_init {w : World} (hw : Consistent playerID w) (calls : List Call) :
    Inv playerID (State.ofCalls w calls) := by
  refine ⟨hw, fun i p hp => ?_⟩
  obtain ⟨call, -, rfl⟩ := List.mem_map.mp (List.mem_of_getElem? hp)
  exact stage_handler w call

theorem alone_restore {w : World} (request : RestoreRequest) (hw : Consistent request.playerID w)
    (hne : request.playerID ≠ "") (es : Nat → Env) :
    ∃ s a, ((restore (some request)).alone (fun e w c => World.answer w c e) es w).1 =
        .ok (.restore (restoreResponse request s)) ∧
      a ∈ w.assets ∧ a.playerID = request.playerID ∧ s.assets.assetVersion = a.assetVersion ∧
      s.assets.currency = a.currency := by
  rw [restore_eq hne]
  simp only [Prog.alone, World.answer, World.findSnapshotByPlayerID]
  cases hd : w.snapshots.findOne (·.playerID == request.playerID) with
  | some d =>
    obtain ⟨hmem, hid⟩ := Coll.mem_of_findOne hd
    obtain ⟨a, ha, haid, hver, hcur⟩ := hw.fresh d hmem (by simpa using hid)
    exact ⟨snapshotDomainFromDocument d, a, rfl, ha, haid, hver.symm, hcur.symm⟩
  | none =>
    obtain ⟨p, hp, hpid⟩ := hw.player
    obtain ⟨a, ha, haid⟩ := hw.assets
    have hfindp : w.players.findOne (·.id == request.playerID) = some p :=
      Coll.findOne_eq_some hp (by simpa using hpid) fun x _ hx => by
        simp [playerIndexes, hpid, (by simpa using hx : x.id = request.playerID)]
    have hfinda : w.assets.findOne (·.playerID == request.playerID) = some a :=
      Coll.findOne_eq_some ha (by simpa using haid) fun x _ hx => by
        simp [assetIndexes, haid, (by simpa using hx : x.playerID = request.playerID)]
    refine ⟨{ player := p, assets := a, schemaVersion := 1, createdAt := w.clock }, a, ?_, ha, haid, rfl, rfl⟩
    simp [afterSnapshot, afterPlayer, afterAssets, rebuild_eq, Prog.alone, World.findPlayerByID, hfindp,
      World.findAssetsByPlayerID, hfinda, errPlayerNotFound]

end

end Restore

/-- In a run in which no settlement of the player commits while a restore is
rebuilding its snapshot, a stored snapshot holds what the assets hold, and a
restore that follows answers with the balances the assets hold. -/
theorem snapshots_follow_assets (w₀ : World) (playerID : String) (hw₀ : Consistent playerID w₀) (calls : List Call)
    (sched : List (Nat × Env))
    (hquiet : Pool.Along exec (fun s a => undisturbed playerID s a = true) (State.ofCalls w₀ calls) sched) :
    let w := (Pool.run exec (State.ofCalls w₀ calls) sched).world
    (∀ d ∈ w.snapshots, d.playerID = playerID →
      ∃ a ∈ w.assets, a.playerID = playerID ∧ a.assetVersion = d.assetVersion ∧ a.currency = d.currency) ∧
    ∀ last es, playerID ≠ "" → ∃ response, ∃ a ∈ w.assets, a.playerID = playerID ∧
      ((restore (some ⟨playerID, last⟩)).alone (fun e w c => World.answer w c e) es w).1 = .ok (.restore response) ∧
      ∀ payload, response.snapshot = some payload →
        payload.assetVersion = a.assetVersion ∧ payload.currency = a.currency := by
  intro w
  have hw : Consistent playerID w :=
    (Pool.run_induction exec (fun _ _ => Restore.inv_step) sched _ (Restore.inv_init hw₀ calls) hquiet).world
  refine ⟨hw.fresh, fun last es hne => ?_⟩
  obtain ⟨s, a, hres, ha, haid, hver, hcur⟩ :=
    Restore.alone_restore ⟨playerID, last⟩ hw hne es
  refine ⟨_, a, ha, haid, hres, fun payload hpay => ?_⟩
  simp only [restoreResponse, Option.ite_none_left_eq_some, Option.some.injEq] at hpay
  obtain ⟨-, rfl⟩ := hpay
  exact ⟨hver, hcur⟩

def unsavedPlayer : World where
  players := ⟨[⟨"player-1", "account-1", "Player", "", "global", true, 1, 1, 1⟩], List.pairwise_singleton _ _⟩
  assets := ⟨[⟨"player-1", (∅ : Currency).insert "gold" 0, 1, 1⟩], List.pairwise_singleton _ _⟩
  ledger := .empty
  snapshots := .empty
  links := ∅
  clock := 1

theorem unsavedPlayer_consistent : Consistent "player-1" unsavedPlayer := by
  refine ⟨⟨_, List.mem_singleton.mpr rfl, rfl⟩, ⟨_, List.mem_singleton.mpr rfl, rfl⟩, fun d hd => ?_⟩
  exact absurd hd (Coll.not_mem_empty d)

def restoresAndSettlement : List Call :=
  [.restore (some ⟨"player-1", 0⟩),
    .request (.settlement (some ⟨"settlement-1", "player-1", "gold", 125, "reason", "battle"⟩)),
    .restore (some ⟨"player-1", 0⟩)]

theorem snapshots_follow_assets_in_turn :
    Consistent "player-1" unsavedPlayer ∧
      Pool.Along exec (fun s a => undisturbed "player-1" s a = true)
        (State.ofCalls unsavedPlayer restoresAndSettlement) (Pool.inOrder [0, 0, 1, 1, 1, 0, 0, 0, 1, 2]) ∧
      ∀ d ∈ (Pool.run exec (State.ofCalls unsavedPlayer restoresAndSettlement)
        (Pool.inOrder [0, 0, 1, 1, 1, 0, 0, 0, 1, 2])).world.snapshots, d.playerID = "player-1" → d.assetVersion = 2 := by
  have hquiet : Pool.Along exec (fun s a => undisturbed "player-1" s a = true)
      (State.ofCalls unsavedPlayer restoresAndSettlement) (Pool.inOrder [0, 0, 1, 1, 1, 0, 0, 0, 1, 2]) := by decide
  refine ⟨unsavedPlayer_consistent, hquiet, fun d hd hid => ?_⟩
  obtain ⟨a, ha, -, hver, -⟩ :=
    (snapshots_follow_assets _ _ unsavedPlayer_consistent restoresAndSettlement _ hquiet).1 d hd hid
  have hall : ∀ a ∈ (Pool.run exec (State.ofCalls unsavedPlayer restoresAndSettlement)
      (Pool.inOrder [0, 0, 1, 1, 1, 0, 0, 0, 1, 2])).world.assets.docs, a.assetVersion = 2 := by decide
  rw [← hver]
  exact hall a ha

/-- The first restore reads the assets, the settlement commits, the restore
saves what it read. All have returned, the assets hold 125 gold at version 2,
the snapshot holds none at version 1, and so does the answer to the second
restore. -/
theorem restore_overwrites_settlement :
    let s := Pool.run exec (State.ofCalls unsavedPlayer restoresAndSettlement) (Pool.inOrder [0, 0, 0, 1, 1, 1, 1, 0, 0, 2])
    Consistent "player-1" unsavedPlayer ∧ (∀ i < 3, (s.answer i).isSome) ∧
      s.world.assets.docs.map (fun a => (a.playerID, a.assetVersion, a.balance "gold")) = [("player-1", 2, 125)] ∧
      s.world.snapshots.docs.map (fun d => (d.playerID, d.assetVersion, d.currency.lookup "gold")) =
        [("player-1", 1, some 0)] ∧
      ∃ response payload, s.answer 2 = some (.ok (.restore response)) ∧ response.snapshot = some payload ∧
        payload.assetVersion = 1 ∧ payload.currency.lookup "gold" = some 0 :=
  ⟨unsavedPlayer_consistent, by decide, by decide, by decide, _, _, rfl, rfl, rfl, by decide⟩

end GameServer.Lobby
