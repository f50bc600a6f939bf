import GameServer.LobbySound

/-!
# Two settlements under one id

`settlement` compares a request with the stored entry only when its first
lookup finds one. When the entry appears between that lookup and the
transaction, the insert fails and `replaySettlement` answers with the stored
entry, whatever the request asked for. Runs without such a race answer every
conflicting request with `errSettlementConflict`.
-/

namespace GameServer.Lobby

def LedgerGrows (w w' : World) : Prop := ∀ x ∈ w.ledger, x ∈ w'.ledger

theorem ledgerGrows_trans (a b c : World) (h₁ : LedgerGrows a b) (h₂ : LedgerGrows b c) : LedgerGrows a c :=
  fun x hx => h₂ x (h₁ x hx)

theorem ledgerGrows_exec {i : Nat} {e : Env} {w w' : World} {c : Cmd} {r : Ans c} (h : exec i e w c = some (r, w')) :
    LedgerGrows w w' := by
  intro x hx
  rcases exec_cases h with ⟨_, -, hl, -⟩ | ⟨p, a, rfl, htx⟩ | ⟨s, rfl, htx⟩ | ⟨s, rfl, rfl⟩
  · rw [hl]; exact hx
  · obtain ⟨players, assets, -, -, rfl⟩ := createTx_ok htx
    exact hx
  · obtain ⟨ledger, a, b, player, hl, -, -, -, -, rfl⟩ := settleTx_ok htx
    exact (Coll.mem_insertOne hl x).mpr (.inr hx)
  · exact hx

theorem differs_toSettlement (x : Settlement) (q : SettlementRequest) (now : Time) :
    x.differs (q.toSettlement now) = x.differs (q.toSettlement 0) := rfl

/-- The condition on a run: a transaction starts only when no entry with other
content is stored under its id. -/
def Unraced (w : World) : Cmd → Prop
  | .settleTx s => ∀ x ∈ w.ledger.docs, x.id = s.id → x.differs s = false
  | _ => True

instance (w : World) : (c : Cmd) → Decidable (Unraced w c)
  | .settleTx s => inferInstanceAs (Decidable (∀ x ∈ w.ledger.docs, x.id = s.id → x.differs s = false))
  | .now | .newUUID | .findDefaultByAccountID _ | .createTx _ _ | .linkPlayer _ _ | .findBySettlementID _
  | .findAssetsByPlayerID _ | .findPlayerByID _ | .findSnapshotByPlayerID _ | .saveSnapshot _ => .isTrue trivial

section
variable (F : Nat → String → Prop)

def ReplayGuard (i : Nat) (e : Env) (w : World) (c : Cmd) : Prop :=
  Unraced w c ∧ ∀ text, e.fail = some text → F i text

def Matched (q : SettlementRequest) (w : World) : Prop :=
  ∃ x ∈ w.ledger, x.id = q.settlementID ∧ x.differs (q.toSettlement 0) = false

structure Answered (i : Nat) (q : SettlementRequest) (w : World) (res : Except GoErr Reply) : Prop where
  conflict : ∀ x ∈ w.ledger, x.id = q.settlementID → x.differs (q.toSettlement 0) = true →
    res = .error errSettlementConflict ∨ ∃ text, res = .error (.driver text) ∧ F i text
  success : ∀ reply, res = .ok reply → Matched q w

abbrev ReplaySafe (i : Nat) (post : World → Except GoErr Reply → Prop) : Handler → World → Prop :=
  Pool.Safe exec (ReplayGuard F) (fun _ => True) (fun _ => LedgerGrows) i post

variable {F} {i : Nat} {q : SettlementRequest}

theorem not_differs_of_matched {w : World} (h : Matched q w) {x : Settlement} (hx : x ∈ w.ledger)
    (hid : x.id = q.settlementID) : x.differs (q.toSettlement 0) = false := by
  obtain ⟨y, hy, hyid, hydiff⟩ := h
  obtain rfl : x = y := Coll.eq_of_clash hx hy (by simp [ledgerIndexes, hid, hyid])
  exact hydiff

theorem answered_of_matched {w : World} (h : Matched q w) (res : Except GoErr Reply) : Answered F i q w res := by
  refine ⟨fun x hx hid hdiff => ?_, fun _ _ => h⟩
  rw [not_differs_of_matched h hx hid] at hdiff
  cases hdiff

theorem Matched.grow {w w' : World} (h : Matched q w) (hg : LedgerGrows w w') : Matched q w' := by
  obtain ⟨x, hx, hxq⟩ := h
  exact ⟨x, hg x hx, hxq⟩

theorem replaySafe_of_matched {p : Handler} {w : World} (h : Matched q w) :
    ReplaySafe F i (Answered F i q) p w := by
  induction p generalizing w with
  | ret res => exact answered_of_matched h res
  | call c k ih =>
    intro e w₁ r w₂ hr _ _ hx
    have hg := ledgerGrows_exec hx
    exact ⟨trivial, fun _ _ => hg, ih r ((h.grow hr).grow hg)⟩

theorem exec_lookup {e : Env} {w w' : World} {id : String} {r : Except GoErr Settlement}
    (h : exec i e w (.findBySettlementID id) = some (r, w')) :
    (∃ s ∈ w'.ledger, s.id = id ∧ r = .ok s) ∨ r = .error errSettlementNotFound ∨
      ∃ text, e.fail = some text ∧ r = .error (.driver text) := by
  rcases exec_inv h with h | ⟨text, hf, hr, -⟩
  · simp only [World.answer, World.findBySettlementID, Prod.mk.injEq] at h
    obtain ⟨hr, rfl⟩ := h
    split at hr
    · rename_i s hs
      obtain ⟨hmem, hid⟩ := Coll.mem_of_findOne hs
      exact .inl ⟨s, hmem, by simpa using hid, hr.symm⟩
    · exact .inr (.inl hr.symm)
  · exact .inr (.inr ⟨text, hf, (Option.some.inj hr).symm⟩)

theorem exec_settle {e : Env} {w w' : World} {now : Time} {r : Except GoErr Unit}
    (hg : Unraced w (.settleTx (q.toSettlement now)))
    (h : exec i e w (.settleTx (q.toSettlement now)) = some (r, w')) :
    Matched q w' ∨ ∃ err, r = .error err ∧ err.is errSettlementApplied = false ∧ w'.ledger = w.ledger := by
  rcases exec_inv h with h | ⟨text, -, hr, rfl⟩
  · simp only [World.answer] at h
    cases htx : World.settleTx { w with clock := w.clock + e.delay } (q.toSettlement now) with
    | ok w₁ =>
      rw [htx] at h
      obtain ⟨-, rfl⟩ := Prod.mk.inj h
      obtain ⟨ledger, a, b, player, hl, -, -, -, -, rfl⟩ := settleTx_ok htx
      exact .inl ⟨_, (Coll.mem_insertOne hl _).mpr (.inl rfl), rfl, by simp [Settlement.differs, SettlementRequest.toSettlement]⟩
    | error err =>
      rw [htx] at h
      obtain ⟨rfl, rfl⟩ := Prod.mk.inj h
      by_cases his : err.is errSettlementApplied = true
      · obtain ⟨x, hx, hid⟩ := settleTx_applied htx his
        exact .inl ⟨x, hx, hid, by rw [← differs_toSettlement]; exact hg x hx hid⟩
      · exact .inr ⟨err, rfl, by simpa using his, rfl⟩
  · exact .inr ⟨.driver text, (Option.some.inj hr).symm, rfl, rfl⟩

theorem settlement_replaySafe (payload : Option SettlementRequest) (w : World) :
    ReplaySafe F i (fun w res => ∀ q, payload = some q → q.valid = true → Answered F i q w res) (settlement payload) w := by
  cases payload with
  | none => intro q hq; cases hq
  | some q =>
    suffices h : q.valid = true → ReplaySafe F i (Answered F i q) (settlement (some q)) w by
      cases hv : q.valid with
      | true =>
        refine (h hv).mono fun _ _ ha q' hq _ => ?_
        cases hq
        exact ha
      | false =>
        simp only [settlement, hv, Bool.not_false, if_true]
        intro q' hq hv'
        cases hq
        rw [hv] at hv'
        cases hv'
    intro hv
    simp only [settlement, hv, perform, Prog.perform_bind, Bool.not_true]
    -- the clock, then the lookup
    intro _ w₁ now w₂ _ _ _ h₁
    refine ⟨trivial, fun _ _ => ledgerGrows_exec h₁, ?_⟩
    intro e w₃ r w₄ _ _ hg h₂
    refine ⟨trivial, fun _ _ => ledgerGrows_exec h₂, ?_⟩
    rcases exec_lookup h₂ with ⟨s, hs, hid, rfl⟩ | rfl | ⟨text, hf, rfl⟩
    · by_cases hd : s.differs (q.toSettlement now) = true
      · simp only [hd, if_true]
        exact ⟨fun _ _ _ _ => .inl rfl, fun _ h => by cases h⟩
      · simp only [hd]
        exact replaySafe_of_matched ⟨s, hs, hid, by simpa [differs_toSettlement] using hd⟩
    · -- nothing stored: the transaction decides
      intro e w₅ r w₆ _ _ hg h₃
      refine ⟨trivial, fun _ _ => ledgerGrows_exec h₃, ?_⟩
      rcases exec_settle hg.1 h₃ with hm | ⟨err, rfl, his, hl⟩
      · exact replaySafe_of_matched hm
      · simp only [his]
        refine ⟨fun x hx hid hdiff => ?_, fun _ h => by cases h⟩
        rw [hl] at hx
        have hsame := hg.1 x hx hid
        rw [differs_toSettlement, hdiff] at hsame
        cases hsame
    · exact ⟨fun _ _ _ _ => .inr ⟨text, rfl, hg.2 text hf⟩, fun _ h => by cases h⟩

def RequestAnswered (F : Nat → String → Prop) (r : Request) (i : Nat) (w : World) (res : Except GoErr Reply) : Prop :=
  ∀ q, r = .settlement (some q) → q.valid = true → Answered F i q w res

theorem handler_replaySafe (r : Request) (w : World) : ReplaySafe F i (RequestAnswered F r i) r.handler w := by
  cases r with
  | ensurePlayer payload =>
    have hsafe : ReplaySafe F i (fun _ _ => True) (ensurePlayer payload) w :=
      Pool.Safe.of_uses (fun _ _ _ _ => trivial)
        (fun _ _ _ _ _ _ _ _ _ h => ⟨trivial, fun _ _ => ledgerGrows_exec h, trivial⟩)
        (ensurePlayer_issued (.ensurePlayer none) payload) trivial
    exact hsafe.mono fun _ _ _ q hq => nomatch hq
  | settlement payload =>
    refine (settlement_replaySafe payload w).mono fun _ _ h q hq => h q ?_
    cases hq
    rfl

end

/-- In a run without races, a request that differs from the entry stored under
its id is answered with the conflict error, or with the failure the store
reported to it; a request answered with success agrees with the ledger then and
ever after. -/
theorem conflicts_answered (links : AList fun _ : String => List String) (clock : Time) (requests : List Request)
    (sched : List (Nat × Env))
    (hrace : Pool.Along exec (Pool.Issues fun _ _ w c => Unraced w c)
      (State.init (World.init links clock) requests) sched) :
    let s := reached links clock requests sched
    ∀ i res w q, (i, res, w) ∈ s.returned → requests[i]? = some (.settlement (some q)) → q.valid = true →
      (∀ x ∈ w.ledger, x.id = q.settlementID → x.differs (q.toSettlement 0) = true →
        res = .error errSettlementConflict ∨
          ∃ text, res = .error (.driver text) ∧ ∃ e, (i, e) ∈ sched ∧ e.fail = some text) ∧
      ∀ reply, res = .ok reply → ∀ x ∈ s.world.ledger, x.id = q.settlementID →
        x.differs (q.toSettlement 0) = false := by
  intro s i res w q hret hq hv
  let F : Nat → String → Prop := fun i text => ∃ e, (i, e) ∈ sched ∧ e.fail = some text
  let post : Nat → World → Except GoErr Reply → Prop :=
    fun i w res => ∀ r, requests[i]? = some r → RequestAnswered F r i w res
  have hstart : Pool.Good exec (ReplayGuard F) (fun _ => True) (fun _ => LedgerGrows) post
      (State.init (World.init links clock) requests) := by
    refine Pool.good_start (fun _ _ _ h => h) trivial (Pool.forall_map fun i r hr => ?_)
    refine (handler_replaySafe r _).mono fun w res h r' hr' => ?_
    obtain rfl : r = r' := Option.some.inj (hr.symm.trans hr')
    exact h
  have hguard : Pool.Along exec (Pool.Issues (ReplayGuard F)) (State.init (World.init links clock) requests) sched := by
    have hfail := Pool.along_of_mem exec (P := fun _ a => ∀ text, a.2.fail = some text → F a.1 text) sched
      (State.init (World.init links clock) requests) fun _ a ha text h => ⟨a.2, ha, h⟩
    exact (hrace.and hfail).mono fun _ _ h c k hp => ⟨h.1 c k hp, h.2⟩
  have hgood := Pool.safe_run (fun _ _ _ h => h) (fun _ => ledgerGrows_trans) hstart hguard
  have hans := hgood.post _ hret _ hq q rfl hv
  refine ⟨hans.conflict, fun reply hok x hx hid => ?_⟩
  exact not_differs_of_matched ((hans.success reply hok).grow (hgood.past _ hret)) hx hid

def twoSettlements : List Request :=
  [.ensurePlayer (some "account-1"),
    .settlement (some ⟨"settlement-1", "player-1", "gold", 125, "reason", "battle"⟩),
    .settlement (some ⟨"settlement-1", "player-1", "gold", 999, "reason", "battle"⟩)]

def entry125 : Settlement := ⟨"settlement-1", "player-1", "gold", 125, "reason", "battle", 1⟩

def playerThen (order : List Nat) : List (Nat × Env) :=
  (0, {}) :: (0, { uuid := "player-1" }) :: (0, {}) :: (0, {}) :: (0, {}) :: order.map fun i => (i, {})

def answers (s : State) : List (Nat × Except GoErr Reply × List Settlement) :=
  s.returned.map fun (i, res, w) => (i, res, w.ledger.docs)

theorem returned_of_mem_answers {s : State} {i : Nat} {res : Except GoErr Reply} {docs : List Settlement}
    (h : (i, res, docs) ∈ answers s) : ∃ w, (i, res, w) ∈ s.returned ∧ w.ledger.docs = docs := by
  obtain ⟨⟨_, _, w⟩, hmem, heq⟩ := List.mem_map.mp h
  cases heq
  exact ⟨w, hmem, rfl⟩

theorem conflicts_answered_in_turn :
    Pool.Along exec (Pool.Issues fun _ _ w c => Unraced w c) (State.init (World.init ∅ 1) twoSettlements)
        (playerThen [1, 1, 1, 1, 2, 2]) ∧
      ∃ res w, (2, res, w) ∈ (reached ∅ 1 twoSettlements (playerThen [1, 1, 1, 1, 2, 2])).returned ∧
        res = .error errSettlementConflict := by
  have hrace : Pool.Along exec (Pool.Issues fun _ _ w c => Unraced w c) (State.init (World.init ∅ 1) twoSettlements)
      (playerThen [1, 1, 1, 1, 2, 2]) := by decide
  have hans : (2, .error errSettlementConflict, [entry125]) ∈
      answers (reached ∅ 1 twoSettlements (playerThen [1, 1, 1, 1, 2, 2])) := by decide
  obtain ⟨w, hw, hdocs⟩ := returned_of_mem_answers hans
  refine ⟨hrace, _, w, hw, ?_⟩
  have hmem : entry125 ∈ w.ledger := by rw [Coll.mem_def, hdocs]; exact List.mem_singleton.mpr rfl
  rcases (conflicts_answered ∅ 1 twoSettlements _ hrace 2 _ w _ hw rfl (by decide)).1 _ hmem rfl (by decide)
    with h | ⟨text, -, e, he, hfail⟩
  · exact h
  · have hnone : ∀ a ∈ playerThen [1, 1, 1, 1, 2, 2], a.2.fail = none := by decide
    exact nomatch (hnone _ he).symm.trans hfail

theorem race_answers_success :
    ∃ reply w q x, (2, .ok reply, w) ∈ (reached ∅ 1 twoSettlements (playerThen [1, 1, 2, 2, 1, 1, 2, 2, 2])).returned ∧
      twoSettlements[2]? = some (.settlement (some q)) ∧ q.valid = true ∧ x ∈ w.ledger ∧ x.id = q.settlementID ∧
      x.differs (q.toSettlement 0) = true := by
  have hans : (2, .ok (.settlement "settlement-1" "player-1" "gold" 125 2 true), [entry125]) ∈
      answers (reached ∅ 1 twoSettlements (playerThen [1, 1, 2, 2, 1, 1, 2, 2, 2])) := by decide
  obtain ⟨w, hw, hdocs⟩ := returned_of_mem_answers hans
  refine ⟨_, w, _, entry125, hw, rfl, by decide, ?_, rfl, by decide⟩
  rw [Coll.mem_def, hdocs]
  exact List.mem_singleton.mpr rfl

end GameServer.Lobby
