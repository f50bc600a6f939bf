import GameServer.Lobby
import Mathlib.Algebra.BigOperators.Group.List.Basic

/-!
# Balances, versions and snapshots follow the ledger

Every state the lobby reaches from empty collections, by any interleaving of
requests, satisfies `Ledgered`: the balance of an asset is the sum of the
player's ledger entries, the version counts them, and the stored snapshot
carries the same currencies and version.
-/

namespace GameServer.Lobby

/-! ## What a command does to the collections -/

variable {w w' : World} {a : Assets} {s : Settlement}

theorem createTx_ok {p : Player} (h : w.createTx p a = .ok w') :
    ∃ players assets, w.players.insertOne p = some players ∧ w.assets.insertOne a = some assets ∧
      w' = { w with
        players, assets
        snapshots := w.snapshots.upsert (snapshotDocumentFromDomain
          { player := p, assets := a, schemaVersion := 1, createdAt := p.createdAt }) } := by
  unfold World.createTx World.createPlayer World.createAssets at h
  cases hv : p.validate with
  | error e => simp [hv, bind, Except.bind] at h
  | ok _ =>
    cases hp : w.players.insertOne p with
    | none => simp [hv, hp, bind, Except.bind] at h
    | some players =>
      cases ha : w.assets.insertOne a with
      | none => simp [hv, hp, ha, bind, Except.bind] at h
      | some assets =>
        refine ⟨players, assets, rfl, rfl, ?_⟩
        simpa [hv, hp, ha, bind, Except.bind, World.saveSnapshot, pure, Except.pure] using h.symm

theorem settleTx_ok (h : w.settleTx s = .ok w') :
    ∃ ledger a b player, w.ledger.insertOne s = some ledger ∧
      w.assets.findOne (deltaFilter s.playerID s.assetType s.delta) = some a ∧
      incAssets s.assetType s.delta w.clock a = some b ∧ player.id = s.playerID ∧ s.delta ≠ 0 ∧
      w' = { w with
        ledger
        assets := w.assets.updateOne (deltaFilter s.playerID s.assetType s.delta)
          (fun d => (incAssets s.assetType s.delta w.clock d).getD d) (incAssets_keepsKeys _ _ _)
        snapshots := w.snapshots.upsert (snapshotDocumentFromDomain
          { player, assets := b, schemaVersion := 1, createdAt := w.clock }) } := by
  unfold World.settleTx World.createLedger World.applyDelta World.findPlayerByID at h
  have hd : s.validate = .ok () → s.delta ≠ 0 := by
    intro hv hd
    simp [Settlement.validate, hd] at hv
  cases hv : s.validate with
  | error e => simp [hv, bind, Except.bind] at h
  | ok _ =>
    cases hl : w.ledger.insertOne s with
    | none => simp [hv, hl, bind, Except.bind] at h
    | some ledger =>
      cases ha : w.assets.findOne (deltaFilter s.playerID s.assetType s.delta) with
      | none => simp [hv, hl, ha, hd hv, bind, Except.bind] at h
      | some a =>
        cases hb : incAssets s.assetType s.delta w.clock a with
        | none => simp [hv, hl, ha, hb, hd hv, bind, Except.bind] at h
        | some b =>
          cases hp : w.players.findOne (·.id == s.playerID) with
          | none => simp [hv, hl, ha, hb, hp, hd hv, bind, Except.bind] at h
          | some player =>
            refine ⟨ledger, a, b, player, rfl, rfl, hb, ?_, hd hv, ?_⟩
            · simpa using (Coll.mem_of_findOne hp).2
            · simpa [hv, hl, ha, hb, hp, hd hv, bind, Except.bind, World.saveSnapshot, pure, Except.pure]
                using h.symm

theorem createLedger_error {err : GoErr} (h : w.createLedger s = .error err) :
    err = errInvalidSettlement ∨ ∃ x ∈ w.ledger, x.id = s.id := by
  rcases bind_eq_error h with hv | ⟨_, -, hl⟩
  · simp only [Settlement.validate] at hv
    split at hv <;> cases hv
    exact .inl rfl
  · split at hl <;> cases hl
    rename_i hl
    obtain ⟨x, hx, hid⟩ := Coll.insertOne_eq_none hl
    have hid : s.id = x.id := by simpa [ledgerIndexes, Index.on] using hid
    exact .inr ⟨x, hx, hid.symm⟩

theorem applyDelta_error {playerID assetType : String} {delta : Int64} {err : GoErr}
    (h : w.applyDelta playerID assetType delta = .error err) : err.is errSettlementApplied = false := by
  unfold World.applyDelta World.findAssetsByPlayerID at h
  split at h
  · split at h <;> cases h
    rfl
  · split at h
    · cases h
      rfl
    · split at h <;> cases h
      rfl

theorem settleTx_applied {err : GoErr} (h : w.settleTx s = .error err) (his : err.is errSettlementApplied = true) :
    ∃ x ∈ w.ledger, x.id = s.id := by
  rcases bind_eq_error h with h | ⟨w₁, -, h⟩
  · rcases createLedger_error h with rfl | hx
    · cases his
    · exact hx
  exfalso
  rcases bind_eq_error h with h | ⟨⟨a, w₂⟩, -, h⟩
  · rw [applyDelta_error h] at his
    cases his
  rcases bind_eq_error h with h | ⟨player, -, h⟩
  · unfold World.findPlayerByID at h
    split at h <;> cases h
    cases his
  · cases h

inductive Wrote (w : World) : Cmd → World → Prop
  | nothing (c : Cmd) : Wrote w c w
  | created {p : Player} {a : Assets} {w' : World} : w.createTx p a = .ok w' → Wrote w (.createTx p a) w'
  | linked {accountID playerID : String} {w' : World} : w.linkPlayer accountID playerID = .ok w' →
      Wrote w (.linkPlayer accountID playerID) w'
  | settled {s : Settlement} {w' : World} : w.settleTx s = .ok w' → Wrote w (.settleTx s) w'
  | saved (s : Snapshot) : Wrote w (.saveSnapshot s) (w.saveSnapshot s)

theorem wrote_commit {c : Cmd} {res : Except GoErr World} (h : ∀ w', res = .ok w' → Wrote w c w') :
    Wrote w c (commit w res).2 := by
  cases res with
  | ok w' => exact h w' rfl
  | error err => exact .nothing c

theorem wrote_answer (w : World) (c : Cmd) (e : Env) : Wrote w c (w.answer c e).2 := by
  cases c with
  | createTx p a => exact wrote_commit fun _ => .created
  | linkPlayer accountID playerID => exact wrote_commit fun _ => .linked
  | settleTx s => exact wrote_commit fun _ => .settled
  | saveSnapshot s => exact .saved s
  | _ => exact .nothing _

theorem exec_inv {i : Nat} {e : Env} {c : Cmd} {r : Ans c} (h : exec i e w c = some (r, w')) :
    World.answer { w with clock := w.clock + e.delay } c e = (r, w') ∨
      ∃ text, e.fail = some text ∧ failed text c = some r ∧ w' = { w with clock := w.clock + e.delay } := by
  unfold exec at h
  cases hf : e.fail with
  | none => exact .inl (by simpa [hf] using h)
  | some text =>
    simp only [hf, Option.map_eq_some_iff, Prod.mk.injEq] at h
    obtain ⟨r', hr', rfl, rfl⟩ := h
    exact .inr ⟨text, rfl, hr', rfl⟩

theorem wrote_exec {i : Nat} {e : Env} {c : Cmd} {r : Ans c} (h : exec i e w c = some (r, w')) :
    Wrote { w with clock := w.clock + e.delay } c w' := by
  rcases exec_inv h with h | ⟨_, -, -, rfl⟩
  · have hw := wrote_answer { w with clock := w.clock + e.delay } c e
    rw [h] at hw
    exact hw
  · exact .nothing c

theorem exec_cases {i : Nat} {e : Env} {c : Cmd} {r : Ans c} (h : exec i e w c = some (r, w')) :
    (w'.players = w.players ∧ w'.assets = w.assets ∧ w'.ledger = w.ledger ∧ w'.snapshots = w.snapshots) ∨
      (∃ p a, c = .createTx p a ∧ World.createTx { w with clock := w.clock + e.delay } p a = .ok w') ∨
      (∃ s, c = .settleTx s ∧ World.settleTx { w with clock := w.clock + e.delay } s = .ok w') ∨
      ∃ s, c = .saveSnapshot s ∧ w' = World.saveSnapshot { w with clock := w.clock + e.delay } s := by
  cases wrote_exec h with
  | nothing => exact .inl ⟨rfl, rfl, rfl, rfl⟩
  | created htx => exact .inr (.inl ⟨_, _, rfl, htx⟩)
  | settled htx => exact .inr (.inr (.inl ⟨_, rfl, htx⟩))
  | saved s => exact .inr (.inr (.inr ⟨s, rfl, rfl⟩))
  | linked hlink =>
    unfold World.linkPlayer at hlink
    split at hlink <;> cases hlink
    exact .inl ⟨rfl, rfl, rfl, rfl⟩

/-! ## The invariant -/

def World.total (w : World) (playerID assetType : String) : Int :=
  ((w.ledger.docs.filter fun s => s.playerID == playerID && s.assetType == assetType).map (·.delta.toInt)).sum

def World.entries (w : World) (playerID : String) : Nat := w.ledger.docs.countP (·.playerID == playerID)

structure Ledgered (w : World) : Prop where
  owned : ∀ s ∈ w.ledger, ∃ a ∈ w.assets, a.playerID = s.playerID
  balance : ∀ a ∈ w.assets, ∀ t, (a.balance t).toInt = w.total a.playerID t
  version : ∀ a ∈ w.assets, a.assetVersion.toNat = 1 + w.entries a.playerID
  saved : ∀ a ∈ w.assets, ∃ d ∈ w.snapshots, d.playerID = a.playerID ∧ d.currency = a.currency ∧
    d.assetVersion = a.assetVersion
  known : ∀ d ∈ w.snapshots, ∃ a ∈ w.assets, a.playerID = d.playerID

theorem ledgered_congr (ha : w'.assets = w.assets) (hl : w'.ledger = w.ledger) (hs : w'.snapshots = w.snapshots)
    (h : Ledgered w) : Ledgered w' := by
  obtain ⟨h₁, h₂, h₃, h₄, h₅⟩ := h
  refine ⟨?_, ?_, ?_, ?_, ?_⟩
  · rw [ha, hl]; exact h₁
  · rw [ha]; unfold World.total; rw [hl]; exact h₂
  · rw [ha]; unfold World.entries; rw [hl]; exact h₃
  · rw [ha, hs]; exact h₄
  · rw [ha, hs]; exact h₅

theorem ledgered_init (links : AList fun _ : String => List String) (clock : Time) :
    Ledgered (World.init links clock) := by
  constructor <;> intro x hx <;> exact absurd hx (Coll.not_mem_empty x)

def Issued (r : Request) : Cmd → Prop
  | .createTx p a => a.playerID = p.id ∧ a.assetVersion = 1 ∧ ∀ t, a.balance t = 0
  | .settleTx s => ∃ q now, r = .settlement (some q) ∧ s = q.toSettlement now
  | .saveSnapshot _ => False
  | _ => True

theorem total_of_no_entries {playerID : String} (h : ∀ s ∈ w.ledger, s.playerID ≠ playerID) (t : String) :
    w.total playerID t = 0 := by
  have : w.ledger.docs.filter (fun s => s.playerID == playerID && s.assetType == t) = [] :=
    List.filter_eq_nil_iff.mpr fun s hs => by simp [h s hs]
  simp [World.total, this]

theorem entries_of_no_entries {playerID : String} (h : ∀ s ∈ w.ledger, s.playerID ≠ playerID) :
    w.entries playerID = 0 :=
  List.countP_eq_zero.mpr fun s hs => by simpa using h s hs

theorem ledgered_createTx {q : Request} {p : Player} (hq : Issued q (.createTx p a)) (hi : Ledgered w)
    (h : w.createTx p a = .ok w') : Ledgered w' := by
  obtain ⟨players, assets, _, ha, rfl⟩ := createTx_ok h
  obtain ⟨hid, hver, hzero⟩ := hq
  obtain ⟨-, hfresh⟩ := Coll.insertOne_eq_some ha
  have hne : ∀ x ∈ w.assets, x.playerID ≠ a.playerID := by
    intro x hx he
    have := hfresh x hx
    simp [assetIndexes, Index.on, he] at this
  -- a player without assets has no ledger entries yet
  have hnone : ∀ s ∈ w.ledger, s.playerID ≠ a.playerID := by
    intro s hs he
    obtain ⟨x, hx, hxs⟩ := hi.owned s hs
    exact hne x hx (hxs.trans he)
  refine ⟨?_, ?_, ?_, ?_, ?_⟩
  · intro s hs
    obtain ⟨x, hx, hxs⟩ := hi.owned s hs
    exact ⟨x, (Coll.mem_insertOne ha x).mpr (.inr hx), hxs⟩
  · intro x hx t
    rcases (Coll.mem_insertOne ha x).mp hx with rfl | hx
    · rw [hzero]; exact (total_of_no_entries hnone t).symm
    · exact hi.balance x hx t
  · intro x hx
    rcases (Coll.mem_insertOne ha x).mp hx with rfl | hx
    · rw [hver]; exact (congrArg (1 + ·) (entries_of_no_entries hnone)).symm
    · exact hi.version x hx
  · intro x hx
    rcases (Coll.mem_insertOne ha x).mp hx with rfl | hx
    · exact ⟨_, Coll.mem_upsert.mpr (.inl rfl), hid.symm, rfl, rfl⟩
    · obtain ⟨d, hd, hdx⟩ := hi.saved x hx
      refine ⟨d, Coll.mem_upsert.mpr (.inr ⟨hd, ?_⟩), hdx⟩
      have : p.id ≠ d.playerID := by rw [← hid, hdx.1]; exact Ne.symm (hne x hx)
      simpa [snapshotIndexes, Index.on, snapshotDocumentFromDomain] using this
  · intro d hd
    rcases Coll.mem_upsert.mp hd with rfl | ⟨hd, -⟩
    · exact ⟨a, (Coll.mem_insertOne ha a).mpr (.inl rfl), hid⟩
    · obtain ⟨x, hx, hxd⟩ := hi.known d hd
      exact ⟨x, (Coll.mem_insertOne ha x).mpr (.inr hx), hxd⟩

theorem incAssets_some {t : String} {delta : Int64} {now : Time} {b : Assets} (h : incAssets t delta now a = some b) :
    (b.balance t).toInt = (a.balance t).toInt + delta.toInt ∧ (∀ t', t' ≠ t → b.balance t' = a.balance t') ∧
      b.assetVersion.toNat = a.assetVersion.toNat + 1 ∧ b.playerID = a.playerID := by
  have hpid := incAssets_playerID h
  simp only [incAssets, Option.ite_none_right_eq_some, Option.some.injEq] at h
  obtain ⟨⟨-, ⟨hlo, hhi⟩, hv⟩, rfl⟩ := h
  refine ⟨?_, ?_, ?_, hpid⟩
  · simp only [Assets.balance, AList.lookup_insert, Option.getD_some]
    exact Int64.toInt_ofInt_of_le hlo hhi
  · intro t' ht
    simp only [Assets.balance, AList.lookup_insert_ne ht]
  · rw [UInt64.toNat_add, UInt64.toNat_one, Nat.mod_eq_of_lt (by omega)]

theorem deltaFilter_playerID {playerID t : String} {delta : Int64} (h : deltaFilter playerID t delta a = true) :
    a.playerID = playerID := by
  simp only [deltaFilter, Bool.and_eq_true, beq_iff_eq] at h
  exact h.1

theorem deltaFilter_pins (playerID t : String) (delta : Int64) : Coll.Pins assetIndexes (deltaFilter playerID t delta) := by
  intro a b ha hb
  simp [assetIndexes, deltaFilter_playerID ha, deltaFilter_playerID hb]

section
variable {w : World} {s : Settlement} {ledger : Coll ledgerIndexes} (h : w.ledger.insertOne s = some ledger)
include h

theorem total_insert (assets : Coll assetIndexes) (snapshots : Coll snapshotIndexes) (playerID t : String) :
    World.total { w with ledger, assets, snapshots } playerID t =
      (if s.playerID = playerID ∧ s.assetType = t then s.delta.toInt else 0) + w.total playerID t := by
  unfold World.total
  rw [(Coll.insertOne_eq_some h).1, List.filter_cons]
  by_cases hs : s.playerID = playerID ∧ s.assetType = t
  · simp [hs]
  · have : (s.playerID == playerID && s.assetType == t) = false := by simpa using hs
    simp [hs, this]

theorem entries_insert (assets : Coll assetIndexes) (snapshots : Coll snapshotIndexes) (playerID : String) :
    World.entries { w with ledger, assets, snapshots } playerID =
      w.entries playerID + if s.playerID = playerID then 1 else 0 := by
  unfold World.entries
  rw [(Coll.insertOne_eq_some h).1, List.countP_cons]
  simp

end

theorem mem_settled {b : Assets} {now : Time}
    (ha : w.assets.findOne (deltaFilter s.playerID s.assetType s.delta) = some a)
    (hb : incAssets s.assetType s.delta now a = some b) (x : Assets) :
    x ∈ w.assets.updateOne (deltaFilter s.playerID s.assetType s.delta)
      (fun d => (incAssets s.assetType s.delta now d).getD d) (incAssets_keepsKeys _ _ _) ↔
        (x ∈ w.assets ∧ x.playerID ≠ s.playerID) ∨ x = b := by
  obtain ⟨hamem, hafil⟩ := Coll.mem_of_findOne ha
  have hpin := deltaFilter_pins s.playerID s.assetType s.delta
  rw [Coll.mem_updateOne hpin]
  constructor
  · rintro (⟨hx, hf⟩ | ⟨d, hd, hf, rfl⟩)
    · refine .inl ⟨hx, fun he => ?_⟩
      obtain rfl : a = x := Coll.eq_of_clash hamem hx (by simp [assetIndexes, deltaFilter_playerID hafil, he])
      rw [hafil] at hf; cases hf
    · obtain rfl : a = d := Coll.eq_of_clash hamem hd (hpin a d hafil hf)
      exact .inr (by simp [hb])
  · rintro (⟨hx, hne⟩ | rfl)
    · exact .inl ⟨hx, by simp [deltaFilter, hne]⟩
    · exact .inr ⟨a, hamem, hafil, by simp [hb]⟩

theorem ledgered_settleTx (hi : Ledgered w) (h : w.settleTx s = .ok w') :
    Ledgered w' := by
  obtain ⟨ledger, a, b, player, hl, ha, hb, hp, -, rfl⟩ := settleTx_ok h
  obtain ⟨hamem, hafil⟩ := Coll.mem_of_findOne ha
  have hapid := deltaFilter_playerID hafil
  obtain ⟨hbal, hbal', hver, hbpid⟩ := incAssets_some hb
  have hmem := mem_settled ha hb
  have hbmem := (hmem b).mpr (.inr rfl)
  refine ⟨?_, ?_, ?_, ?_, ?_⟩
  · intro x hx
    rcases (Coll.mem_insertOne hl x).mp hx with rfl | hx
    · exact ⟨b, hbmem, hbpid.trans hapid⟩
    · obtain ⟨y, hy, hyx⟩ := hi.owned x hx
      by_cases he : y.playerID = s.playerID
      · exact ⟨b, hbmem, by rw [hbpid, hapid, ← he, hyx]⟩
      · exact ⟨y, (hmem y).mpr (.inl ⟨hy, he⟩), hyx⟩
  · intro x hx t
    rw [total_insert hl]
    rcases (hmem x).mp hx with ⟨hx, hne⟩ | rfl
    · rw [if_neg fun hc => hne hc.1.symm, zero_add]
      exact hi.balance x hx t
    · have hold := hi.balance a hamem t
      rw [hbpid]
      by_cases ht : s.assetType = t
      · subst ht
        rw [if_pos ⟨hapid.symm, rfl⟩, hbal, hold, add_comm]
      · rw [if_neg fun hc => ht hc.2, hbal' t (Ne.symm ht), hold, zero_add]
  · intro x hx
    rw [entries_insert hl]
    rcases (hmem x).mp hx with ⟨hx, hne⟩ | rfl
    · rw [if_neg (Ne.symm hne)]
      exact hi.version x hx
    · rw [hver, hbpid, if_pos hapid.symm, hi.version a hamem]
      omega
  · intro x hx
    rcases (hmem x).mp hx with ⟨hx, hne⟩ | rfl
    · obtain ⟨d, hd, hdx⟩ := hi.saved x hx
      refine ⟨d, Coll.mem_upsert.mpr (.inr ⟨hd, ?_⟩), hdx⟩
      have : player.id ≠ d.playerID := by rw [hp, hdx.1]; exact Ne.symm hne
      simpa [snapshotIndexes, Index.on, snapshotDocumentFromDomain] using this
    · exact ⟨_, Coll.mem_upsert.mpr (.inl rfl), by rw [hbpid, hapid]; exact hp, rfl, rfl⟩
  · intro d hd
    rcases Coll.mem_upsert.mp hd with rfl | ⟨hd, hne⟩
    · exact ⟨b, hbmem, by rw [hbpid, hapid]; exact hp.symm⟩
    · obtain ⟨x, hx, hxd⟩ := hi.known d hd
      have hne' : player.id ≠ d.playerID := by
        simpa [snapshotIndexes, Index.on, snapshotDocumentFromDomain] using hne
      exact ⟨x, (hmem x).mpr (.inl ⟨hx, by rw [hxd, ← hp]; exact Ne.symm hne'⟩), hxd⟩

theorem ledgered_exec {q : Request} {i : Nat} {e : Env} {c : Cmd} {r : Ans c} (hi : Ledgered w) (hq : Issued q c)
    (h : exec i e w c = some (r, w')) : Ledgered w' := by
  have hi' : Ledgered { w with clock := w.clock + e.delay } := ledgered_congr (w := w) rfl rfl rfl hi
  rcases exec_cases h with ⟨_, ha, hl, hs⟩ | ⟨p, a, rfl, htx⟩ | ⟨s, rfl, htx⟩ | ⟨s, rfl, -⟩
  · exact ledgered_congr ha hl hs hi
  · exact ledgered_createTx hq hi' htx
  · exact ledgered_settleTx hi' htx
  · exact hq.elim

/-! ## What the handlers issue -/

section
variable (q : Request)

theorem linkAndReply_issued (accountID playerID : String) (created : Bool) :
    (linkAndReply accountID playerID created).Uses (Issued q) := by
  refine ⟨trivial, fun r => ?_⟩
  cases r <;> trivial

theorem initial_balance (playerID : String) (now : Time) (t : String) :
    Assets.balance
      { playerID, currency := ((∅ : Currency).insert "diamond" 0).insert "gold" 0, assetVersion := 1, updatedAt := now }
      t = 0 := by
  by_cases hg : t = "gold"
  · subst hg; rfl
  · by_cases hd : t = "diamond"
    · subst hd; rfl
    · simp only [Assets.balance, AList.lookup_insert_ne hg, AList.lookup_insert_ne hd, AList.lookup_empty,
        Option.getD_none]

theorem ensurePlayer_issued (payload : Option String) : (ensurePlayer payload).Uses (Issued q) := by
  unfold ensurePlayer
  simp only [perform, Prog.perform_bind]
  split
  · trivial
  · trivial
  · refine ⟨trivial, fun r => ?_⟩
    cases r with
    | ok player => exact linkAndReply_issued q _ _ _
    | error err =>
      dsimp only
      split
      · trivial
      · refine ⟨trivial, fun r => ?_⟩
        cases r with
        | error idErr => trivial
        | ok playerID =>
          refine ⟨trivial, fun now => ⟨⟨rfl, rfl, initial_balance playerID now⟩, fun r => ?_⟩⟩
          cases r with
          | ok _ => exact linkAndReply_issued q _ _ _
          | error _ =>
            refine ⟨trivial, fun r => ?_⟩
            cases r with
            | ok player => exact linkAndReply_issued q _ _ _
            | error _ => trivial

theorem settlementResult_issued (s : Settlement) (replayed : Bool) :
    (settlementResult s replayed).Uses (Issued q) := by
  refine ⟨trivial, fun r => ?_⟩
  cases r <;> trivial

end

theorem settlement_issued (payload : Option SettlementRequest) :
    (settlement payload).Uses (Issued (.settlement payload)) := by
  cases payload with
  | none => trivial
  | some request =>
    unfold settlement
    simp only [perform, Prog.perform_bind]
    split
    · trivial
    · refine ⟨trivial, fun now => ⟨trivial, fun r => ?_⟩⟩
      cases r with
      | ok existing =>
        dsimp only
        split
        · trivial
        · exact settlementResult_issued _ _ _
      | error err =>
        dsimp only
        split
        · trivial
        · refine ⟨⟨request, now, rfl, rfl⟩, fun r => ?_⟩
          cases r with
          | ok _ => exact settlementResult_issued _ _ _
          | error err =>
            dsimp only
            split
            · refine ⟨trivial, fun r => ?_⟩
              cases r with
              | ok s => exact settlementResult_issued _ _ _
              | error _ => trivial
            · trivial

theorem handler_issued (r : Request) : r.handler.Uses (Issued r) := by
  cases r with
  | ensurePlayer p => exact ensurePlayer_issued _ p
  | settlement p => exact settlement_issued p

theorem init_issued (w : World) (requests : List Request) :
    (State.init w requests).AllUse fun _ c => ∃ r ∈ requests, Issued r c := by
  intro i p hp
  obtain ⟨r, hr, rfl⟩ := List.mem_map.mp (List.mem_of_getElem? hp)
  exact (handler_issued r).mono fun c hc => ⟨r, hr, hc⟩

theorem along_issued (w : World) (requests : List Request) (sched : List (Nat × Env)) :
    Pool.Along exec (Pool.Issues fun _ _ _ c => ∃ r ∈ requests, Issued r c) (State.init w requests) sched :=
  Pool.along_uses sched (init_issued w requests)

/-! ## Every run -/

def reached (links : AList fun _ : String => List String) (clock : Time) (requests : List Request)
    (sched : List (Nat × Env)) : State :=
  Pool.run exec (State.init (World.init links clock) requests) sched

theorem ledgered_reached (links : AList fun _ : String => List String) (clock : Time) (requests : List Request)
    (sched : List (Nat × Env)) : Ledgered (reached links clock requests sched).world :=
  Pool.inv_run (fun _ _ _ _ _ _ hi ⟨_, _, hq⟩ h => ledgered_exec hi hq h) (ledgered_init links clock)
    (along_issued _ requests sched)

/-- Balances are the sums of the ledger, versions count its entries, and the
snapshots hold the same currencies and versions as the assets. -/
theorem ledger_agrees (links : AList fun _ : String => List String) (clock : Time) (requests : List Request)
    (sched : List (Nat × Env)) :
    let w := (reached links clock requests sched).world
    (∀ a ∈ w.assets, (∀ t, (a.balance t).toInt = w.total a.playerID t) ∧
      a.assetVersion.toNat = 1 + w.entries a.playerID) ∧
    (∀ a ∈ w.assets, ∃ d ∈ w.snapshots, d.playerID = a.playerID) ∧
    (∀ d ∈ w.snapshots, ∃ a ∈ w.assets, a.playerID = d.playerID ∧ a.currency = d.currency ∧
      a.assetVersion = d.assetVersion) ∧
    ∀ s ∈ w.ledger, ∃ a ∈ w.assets, a.playerID = s.playerID := by
  intro w
  have hw : Ledgered w := ledgered_reached links clock requests sched
  refine ⟨fun a ha => ⟨hw.balance a ha, hw.version a ha⟩, fun a ha => ?_, fun d hd => ?_, hw.owned⟩
  · obtain ⟨d, hd, hda, -⟩ := hw.saved a ha
    exact ⟨d, hd, hda⟩
  · obtain ⟨a, ha, had⟩ := hw.known d hd
    obtain ⟨d', hd', hda, hcur, hver⟩ := hw.saved a ha
    obtain rfl : d' = d := Coll.eq_of_clash hd' hd (by simp [snapshotIndexes, hda, had])
    exact ⟨a, ha, had, hcur.symm, hver.symm⟩

/-! ## Balances below zero

The guard of `ApplyDelta` compares the balance with `-delta`, which wraps for
the smallest delta and then lets every balance pass. -/

def Solvent (w : World) : Prop := ∀ a ∈ w.assets, ∀ t, 0 ≤ (a.balance t).toInt

theorem toInt_neg_of_ne_min {x : Int64} (h : x ≠ Int64.minValue) : (-x).toInt = -x.toInt := by
  have hlo := Int64.le_toInt x
  have hhi := Int64.toInt_lt x
  have hne : x.toInt ≠ -2 ^ 63 := fun he => h (Int64.toInt_inj.mp (he.trans Int64.toInt_minValue.symm))
  rw [Int64.toInt_neg, Int.bmod_eq_of_le] <;> omega

theorem deltaFilter_covers {playerID t : String} {delta : Int64} (hneg : delta < 0) (hmin : delta ≠ Int64.minValue)
    (h : deltaFilter playerID t delta a = true) :
    -delta.toInt ≤ (a.balance t).toInt := by
  simp only [deltaFilter, hneg, if_true, Bool.and_eq_true, Option.any_eq_true, decide_eq_true_eq] at h
  obtain ⟨-, b, hb, hle⟩ := h
  rw [Int64.le_iff_toInt_le, toInt_neg_of_ne_min hmin] at hle
  simpa [Assets.balance, hb] using hle

theorem solvent_settleTx (hmin : s.delta ≠ Int64.minValue) (hi : Solvent w) (h : w.settleTx s = .ok w') :
    Solvent w' := by
  obtain ⟨ledger, a, b, player, -, ha, hb, -, -, rfl⟩ := settleTx_ok h
  obtain ⟨hamem, hafil⟩ := Coll.mem_of_findOne ha
  obtain ⟨hbal, hbal', -, -⟩ := incAssets_some hb
  intro x hx t
  rcases (mem_settled ha hb x).mp hx with ⟨hx, -⟩ | rfl
  · exact hi x hx t
  · by_cases ht : t = s.assetType
    · subst ht
      have hold := hi a hamem s.assetType
      by_cases hneg : s.delta < 0
      · have := deltaFilter_covers hneg hmin hafil
        omega
      · rw [Int64.lt_iff_toInt_lt, Int64.toInt_zero] at hneg
        omega
    · rw [hbal' t ht]
      exact hi a hamem t

theorem solvent_createTx {q : Request} {p : Player} (hq : Issued q (.createTx p a)) (hi : Solvent w)
    (h : w.createTx p a = .ok w') : Solvent w' := by
  obtain ⟨players, assets, _, ha, rfl⟩ := createTx_ok h
  intro x hx t
  rcases (Coll.mem_insertOne ha x).mp hx with rfl | hx
  · rw [hq.2.2 t]; decide
  · exact hi x hx t

def Negatable : Request → Prop
  | .settlement (some q) => q.delta ≠ Int64.minValue
  | _ => True

theorem solvent_exec {q : Request} {i : Nat} {e : Env} {c : Cmd} {r : Ans c} (hn : Negatable q) (hi : Solvent w)
    (hq : Issued q c) (h : exec i e w c = some (r, w')) : Solvent w' := by
  rcases exec_cases h with ⟨_, ha, -, -⟩ | ⟨p, a, rfl, htx⟩ | ⟨s, rfl, htx⟩ | ⟨s, rfl, -⟩
  · intro x hx; rw [ha] at hx; exact hi x hx
  · exact solvent_createTx (w := { w with clock := w.clock + e.delay }) hq hi htx
  · obtain ⟨q', now, rfl, rfl⟩ := hq
    exact solvent_settleTx (w := { w with clock := w.clock + e.delay }) (s := q'.toSettlement now) hn hi htx
  · exact hq.elim

theorem covered_exec {q : Request} {i : Nat} {e : Env} {c : Cmd} {r : Ans c} (hn : Negatable q) (hq : Issued q c)
    (h : exec i e w c = some (r, w')) {x : Settlement} (hx : x ∉ w.ledger) (hx' : x ∈ w'.ledger) (hneg : x.delta < 0) :
    ∃ a ∈ w.assets, a.playerID = x.playerID ∧ -x.delta.toInt ≤ (a.balance x.assetType).toInt := by
  rcases exec_cases h with ⟨_, -, hl, -⟩ | ⟨p, a, rfl, htx⟩ | ⟨s, rfl, htx⟩ | ⟨s, rfl, -⟩
  · exact absurd (hl ▸ hx') hx
  · obtain ⟨players, assets, -, -, rfl⟩ := createTx_ok htx
    exact absurd hx' hx
  · obtain ⟨ledger, a, b, player, hl, ha, -, -, -, rfl⟩ := settleTx_ok htx
    obtain ⟨hamem, hafil⟩ := Coll.mem_of_findOne ha
    rcases (Coll.mem_insertOne hl x).mp hx' with rfl | hx'
    · obtain ⟨q', now, rfl, rfl⟩ := hq
      exact ⟨a, hamem, deltaFilter_playerID hafil, deltaFilter_covers hneg hn hafil⟩
    · exact absurd hx' hx
  · exact hq.elim

/-- No balance is ever negative, and what a settlement takes was there, if no
delta is the least `int64`, whose negation is itself. -/
theorem balances_covered (links : AList fun _ : String => List String) (clock : Time) (requests : List Request)
    (hn : ∀ r ∈ requests, Negatable r) (sched : List (Nat × Env)) :
    let s := reached links clock requests sched
    (∀ a ∈ s.world.assets, ∀ t, 0 ≤ (a.balance t).toInt) ∧
      ∀ (next : Nat × Env) (x : Settlement), x ∉ s.world.ledger → x ∈ (Pool.step exec s next).world.ledger →
        x.delta < 0 → ∃ a ∈ s.world.assets, a.playerID = x.playerID ∧ -x.delta.toInt ≤ (a.balance x.assetType).toInt := by
  intro s
  have hs : Solvent s.world :=
    Pool.inv_run (fun _ _ _ _ _ _ hi ⟨r, hr, hq⟩ h => solvent_exec (hn r hr) hi hq h)
      (fun a ha => absurd ha (Coll.not_mem_empty a)) (along_issued _ requests sched)
  refine ⟨hs, fun next x hx hx' hneg => ?_⟩
  rcases Pool.step_cases exec s next with h | ⟨c, k, r, w', hp, hx₀, h⟩
  · rw [h] at hx'; exact absurd hx' hx
  · rw [h] at hx'
    obtain ⟨q, hq, hqc⟩ := (Pool.uses_run sched (init_issued _ requests) _ _ hp).1
    exact covered_exec (hn q hq) hqc hx₀ hx hx' hneg

def oneSettlement (delta : Int64) : List Request :=
  [.ensurePlayer (some "account-1"), .settlement (some ⟨"settlement-1", "player-1", "gold", delta, "reason", "battle"⟩)]

def inTurn : List (Nat × Env) :=
  [(0, {}), (0, { uuid := "player-1" }), (0, {}), (0, {}), (0, {}), (1, {}), (1, {}), (1, {}), (1, {})]

theorem balances_covered_125 :
    (∀ r ∈ oneSettlement 125, Negatable r) ∧
      ∀ a ∈ (reached ∅ 1 (oneSettlement 125) inTurn).world.assets, ∀ t, 0 ≤ (a.balance t).toInt :=
  have h : ∀ r ∈ oneSettlement 125, Negatable r := by
    intro r hr
    rcases List.mem_cons.mp hr with rfl | hr
    · trivial
    · rw [List.mem_singleton.mp hr]
      exact (by decide : (125 : Int64) ≠ Int64.minValue)
  ⟨h, (balances_covered ∅ 1 (oneSettlement 125) h inTurn).1⟩

theorem min_delta_overdraws :
    ¬ ∀ (requests : List Request) (sched : List (Nat × Env)),
      ∀ a ∈ (reached ∅ 1 requests sched).world.assets, ∀ t, 0 ≤ (a.balance t).toInt := by
  intro h
  have hdocs : (reached ∅ 1 (oneSettlement Int64.minValue) inTurn).world.assets.docs.map
      (fun a => (a.balance "gold").toInt) = [-2 ^ 63] := by decide
  obtain ⟨a, ha, hbal⟩ := List.mem_map.mp (hdocs ▸ List.mem_singleton.mpr rfl : (-2 ^ 63 : Int) ∈ _)
  have := h _ _ a ha "gold"
  rw [hbal] at this
  omega

end GameServer.Lobby
