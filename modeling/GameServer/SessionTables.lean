import GameServer.SessionExec

/-!
# What disconnecting leaves in a manager's tables

`Create` and `Resume` enter the connection, and `disconnect` takes out what it
finds under the session, once the stored record still names the connection. Calls
are made one after another here, each by a connection on its own manager.
-/

namespace GameServer.Gateway

def Tables.Clear (t : Tables) (connectionID : String) : Prop :=
  t.connections.lookup connectionID = none ∧ ∀ accountID, t.accountConnections.lookup accountID ≠ some connectionID

abbrev Owned := String → Option (String × Nat)

def Owned.give (own : Owned) (connectionID : String) : Except GoErr (String × Nat) → Owned
  | .ok given => Function.update own connectionID (some given)
  | .error _ => own

inductive Reached (hash : String → String) (managers : Nat → Manager) (home : String → Nat) (w₀ : World) : World → Owned → Prop
  | init : Reached hash managers home w₀ w₀ fun _ => none
  | create {w w' : World} {own : Owned} {i : Nat} {accountID connectionID playerID : String} {now : Time}
      {r : Except GoErr Created} (h : Reached hash managers home w₀ w own)
      (hleads : (create hash (managers (home connectionID)) accountID connectionID now playerID).Leads exec i w r w') :
    Reached hash managers home w₀ w'
      (own.give connectionID (r.map fun given => (given.record.sessionID, given.record.connectionEpoch)))
  | resume {w w' : World} {own : Owned} {i : Nat} {sessionID token connectionID : String} {now : Time}
      {r : Except GoErr Created} (h : Reached hash managers home w₀ w own)
      (hleads : (resume hash (managers (home connectionID)) sessionID token connectionID now).Leads exec i w r w') :
    Reached hash managers home w₀ w'
      (own.give connectionID (r.map fun given => (given.record.sessionID, given.record.connectionEpoch)))
  | disconnect {w w' : World} {own : Owned} {i : Nat} {sessionID connectionID : String} {now : Time} {epoch : Nat}
      {r : Except GoErr Unit} (h : Reached hash managers home w₀ w own)
      (hleads : (disconnect (managers (home connectionID)) sessionID connectionID now epoch).Leads exec i w r w') :
    Reached hash managers home w₀ w' own

namespace Leaving

variable {hash : String → String} {managers : Nat → Manager} {home : String → Nat} {i : Nat} {e : Env} {w w' w₀ : World}
  {m : Manager} {own : Owned}

/-! ## What calls do to the tables -/

def Away : Cmd → Prop
  | .enter _ _ _ _ | .leave _ _ _ => False
  | _ => True

theorem tables_exec {c : Cmd} {r : Ans c} (h : exec i e w c = some (r, w')) (hc : Away c) : w'.tables = w.tables := by
  rcases exec_cases h with h | ⟨-, rfl⟩
  · by_cases hstore : Aside c
    · cases c with
      | create _ | get _ | compareAndSwap _ _ | delete _ | claimAccount _ _ | releaseAccount _ _ => exact hstore.elim
      | enter _ _ _ _ | leave _ _ _ => exact hc.elim
      | now | emit _ | publish _ | schedule _ _ =>
        cases h
        rfl
      | randomID =>
        simp only [World.answer] at h
        split at h <;> cases h
        rfl
      | deliver g =>
        obtain ⟨w₁, hw₁, heq⟩ := Option.map_eq_some_iff.mp h
        cases heq
        obtain ⟨_, _, rfl⟩ := deliver_eq hw₁
        rfl
      | fire k =>
        obtain ⟨_, rfl⟩ := fire_eq h
        rfl
      | preempt g n =>
        cases h
        obtain ⟨_, heq⟩ := preempt_eq { w with clock := w.clock + e.delay } g n
        rw [heq]
      | bindSession connectionID sessionID epoch =>
        cases h
        obtain ⟨_, heq⟩ := bindSession_eq { w with clock := w.clock + e.delay } connectionID sessionID epoch
        rw [heq]
    · obtain ⟨_, rfl⟩ := answer_store hstore h
      rfl
  · rfl

variable {connectionID sessionID : String}

theorem tables_leave {accountID : String} {u : Unit}
    (h : exec i e w (.leave m.index accountID sessionID) = some (u, w')) :
    w'.tables = (w.leave m.index accountID sessionID).tables := by
  rcases exec_cases h with h | ⟨⟨_, h⟩, _⟩
  · cases h
    rfl
  · cases h

theorem leads_away {α : Type} {c : Cmd} {k : Ans c → Prog Ans α} {a : α} {w₁ : World}
    (h : (Prog.call c k).Leads exec i w₁ a w') (hc : Away c) (hw : w₁.tables = w.tables) :
    ∃ r w₂, w₂.tables = w.tables ∧ (k r).Leads exec i w₂ a w' := by
  obtain ⟨e, r, w₂, hx, h⟩ := h
  exact ⟨r, w₂, (tables_exec hx hc).trans hw, h⟩

def Stale (connectionID : String) (epoch : Nat) (r : Record) : Prop :=
  connectionID ≠ "" ∧ r.connectionID ≠ connectionID ∨ epoch ≠ 0 ∧ r.connectionEpoch ≠ epoch

theorem leads_disconnect {now : Time} {epoch : Nat} {r : Except GoErr Unit}
    (h : (disconnect m sessionID connectionID now epoch).Leads exec i w r w') :
    (∃ err, r = .error err) ∧ w'.tables = w.tables ∨ ∃ rec, w.lookup (w.key sessionID) = some rec ∧
      (Stale connectionID epoch rec ∧ w'.tables = w.tables ∨
        ¬Stale connectionID epoch rec ∧ w'.tables = (w.leave m.index rec.accountID sessionID).tables) := by
  simp only [disconnect, perform, Prog.perform_bind] at h
  obtain ⟨e₁, got, w₁, hx₁, h⟩ := h
  have h₁ : w₁.tables = w.tables := tables_exec hx₁ trivial
  cases got with
  | error err => exact .inl ⟨⟨err, h.1.symm⟩, h.2 ▸ h₁⟩
  | ok expected =>
    have hfound := (exec_get hx₁).2
    by_cases hother : connectionID ≠ "" ∧ expected.connectionID ≠ connectionID
    · simp only [if_pos hother] at h
      exact .inr ⟨expected, hfound, .inl ⟨.inl hother, h.2 ▸ h₁⟩⟩
    by_cases hlater : epoch ≠ 0 ∧ expected.connectionEpoch ≠ epoch
    · simp only [if_neg hother, if_pos hlater] at h
      exact .inr ⟨expected, hfound, .inl ⟨.inr hlater, h.2 ▸ h₁⟩⟩
    simp only [if_neg hother, if_neg hlater] at h
    obtain ⟨swapped, w₂, h₂, h⟩ := leads_away h trivial h₁
    cases swapped with
    | error err => exact .inl ⟨⟨err, h.1.symm⟩, h.2 ▸ h₂⟩
    | ok swapped =>
      -- a swap that did not take place is not noticed
      obtain ⟨released, w₃, h₃, h⟩ := leads_away h trivial h₂
      cases released with
      | error err => exact .inl ⟨⟨err, h.1.symm⟩, h.2 ▸ h₃⟩
      | ok u =>
        obtain ⟨e₄, u, w₄, hx₄, h⟩ := h
        have h₄ : w₄.tables = (w.leave m.index expected.accountID sessionID).tables := by
          rw [tables_leave hx₄]
          simp only [World.leave, h₃]
        obtain ⟨u', w₅, h₅, h⟩ := leads_away h trivial h₄
        obtain ⟨u'', w₆, h₆, -, rfl⟩ := leads_away h trivial h₅
        exact .inr ⟨expected, hfound, .inr ⟨not_or.mpr ⟨hother, hlater⟩, h₆⟩⟩

/-! ## What `leave` takes out -/

theorem connections_leave (w : World) (k : Nat) (accountID sessionID connectionID : String) :
    ((w.leave k accountID sessionID).tables k).connections.lookup connectionID =
      ((w.tables k).connections.lookup connectionID).filter (· ≠ sessionID) := by
  simp only [World.leave, Function.update_self]
  exact lookup_keepAll ..

theorem accountConnections_leave (w : World) (k : Nat) (accountID sessionID other connectionID : String) :
    ((w.leave k accountID sessionID).tables k).accountConnections.lookup other = some connectionID ↔
      (w.tables k).accountConnections.lookup other = some connectionID ∧
        ¬(other = accountID ∧ (w.tables k).connections.lookup connectionID = some sessionID) := by
  simp only [World.leave, Function.update_self]
  by_cases hother : other = accountID
  · subst hother
    cases hlookup : (w.tables k).accountConnections.lookup other with
    | none => simp [hlookup]
    | some held =>
      by_cases hheld : (w.tables k).connections.lookup held = some sessionID
      · simp only [hheld, decide_true, if_true, AList.lookup_erase, true_and, reduceCtorEq, false_iff]
        rintro ⟨h, hnot⟩
        cases h
        exact hnot hheld
      · simp only [hheld, decide_false, Bool.false_eq_true, if_false, hlookup, true_and]
        refine ⟨fun h => ⟨h, ?_⟩, And.left⟩
        cases h
        exact hheld
  · simp only [hother, false_and, not_false_eq_true, and_true]
    split
    · split
      · rw [AList.lookup_erase_ne hother]
      · rfl
    · rfl

theorem clear_leave (w : World) (k : Nat) (accountID sessionID connectionID : String) :
    ((w.leave k accountID sessionID).tables k).Clear connectionID ↔ (w.tables k).Clear connectionID ∨
      (w.tables k).connections.lookup connectionID = some sessionID ∧
        ∀ other, (w.tables k).accountConnections.lookup other = some connectionID → other = accountID := by
  unfold Tables.Clear
  rw [connections_leave]
  simp only [ne_eq, accountConnections_leave]
  cases h : (w.tables k).connections.lookup connectionID with
  | none => simp
  | some sid =>
    by_cases hsid : sid = sessionID
    · simp [hsid]
    · simp [hsid]

/-! ## Over the calls -/

def Numbered (r : Except GoErr Created) : Prop := ∀ given, r = .ok given → given.record.connectionEpoch ≠ 0

theorem numbered_create (accountID playerID : String) (now : Time) :
    (create hash m accountID connectionID now playerID).Returns Numbered := by
  simp only [create, perform, Prog.perform_bind]
  intro drawn
  cases drawn with
  | error err => exact nofun
  | ok sid =>
    intro drawn
    cases drawn with
    | error err => exact nofun
    | ok token =>
      intro stored
      cases stored with
      | error err => exact nofun
      | ok u =>
        intro claimed
        cases claimed with
        | error err => exact nofun
        | ok claimed =>
          refine fun _ => (Prog.returns_true _).bind fun _ _ _ given h => ?_
          cases h
          exact Nat.one_ne_zero

theorem numbered_resume (token : String) (now : Time) :
    (resume hash m sessionID token connectionID now).Returns Numbered := by
  simp only [resume, perform, Prog.perform_bind]
  intro got
  cases got with
  | error err => exact nofun
  | ok expected =>
    by_cases hexpired : expected.expireAt ≤ now
    · simp only [hexpired, if_true]
      exact fun _ => nofun
    by_cases htoken : hash token ≠ expected.resumeTokenHash
    · simp only [hexpired, if_false, if_pos htoken]
      exact nofun
    simp only [hexpired, if_false, if_neg htoken]
    intro drawn
    cases drawn with
    | error err => exact nofun
    | ok nextToken =>
      intro swapped
      cases swapped with
      | error err => exact nofun
      | ok swapped =>
        cases swapped with
        | false => exact nofun
        | true =>
          intro claimed
          cases claimed with
          | error err => exact nofun
          | ok claimed =>
            refine fun _ => (Prog.returns_true _).bind fun _ _ _ given h => ?_
            cases h
            exact Nat.succ_ne_zero _

theorem epoch_give {r : Except GoErr Created} (hown : ∀ c sid epoch, own c = some (sid, epoch) → epoch ≠ 0) (hr : Numbered r)
    (c sid : String) (epoch : Nat)
    (h : own.give connectionID (r.map fun given => (given.record.sessionID, given.record.connectionEpoch)) c = some (sid, epoch)) :
    epoch ≠ 0 := by
  cases r with
  | error err => exact hown c sid epoch h
  | ok given =>
    by_cases hc : c = connectionID
    · subst hc
      cases (Function.update_self ..).symm.trans h
      exact hr given rfl
    · exact hown c sid epoch ((Function.update_of_ne hc ..).symm.trans h)

theorem epoch_reached (h : Reached hash managers home w₀ w own) : ∀ c sid epoch, own c = some (sid, epoch) → epoch ≠ 0 := by
  induction h with
  | init => exact nofun
  | create _ hleads ih => exact epoch_give ih (Prog.Leads.returns (numbered_create _ _ _) hleads)
  | resume _ hleads ih => exact epoch_give ih (Prog.Leads.returns (numbered_resume _ _) hleads)
  | disconnect _ _ ih => exact ih

end Leaving

/-- A connection's own last session is disconnected, and `nil` is returned: the
connection is out of the tables exactly if it was before, or the stored record
still named it with its epoch, it was entered under that session, and it stood for
no other account. `Resume` enters the id it is given, which need not be the
record's. -/
theorem disconnect_clears_iff (hash : String → String) (managers : Nat → Manager) (hindex : ∀ k, (managers k).index = k)
    (home : String → Nat) (store : StoreKind) (gateways : Nat) (connections : AList fun _ : String => Connection) (clock : Time)
    (w : World) (own : Owned) (hreached : Reached hash managers home (World.init store gateways connections clock) w own)
    (sessionID connectionID : String) (epoch : Nat) (hid : connectionID ≠ "") (hown : own connectionID = some (sessionID, epoch))
    (i : Nat) (now : Time) (w' : World)
    (hleads : (disconnect (managers (home connectionID)) sessionID connectionID now epoch).Leads exec i w (.ok ()) w') :
    ∃ r, w.lookup (w.key sessionID) = some r ∧
      ((w'.tables (home connectionID)).Clear connectionID ↔ (w.tables (home connectionID)).Clear connectionID ∨
        r.connectionID = connectionID ∧ r.connectionEpoch = epoch ∧
          (w.tables (home connectionID)).connections.lookup connectionID = some sessionID ∧
          ∀ accountID, (w.tables (home connectionID)).accountConnections.lookup accountID = some connectionID →
            accountID = r.accountID) := by
  have hepoch := Leaving.epoch_reached hreached _ _ _ hown
  rcases Leaving.leads_disconnect hleads with ⟨⟨_, h⟩, -⟩ | ⟨r, hr, ⟨hstale, htables⟩ | ⟨hstale, htables⟩⟩
  · cases h
  · refine ⟨r, hr, ?_⟩
    rw [htables]
    refine ⟨.inl, fun h => h.resolve_right ?_⟩
    rintro ⟨hc, he, -⟩
    exact hstale.elim (fun h => h.2 hc) (fun h => h.2 he)
  · refine ⟨r, hr, ?_⟩
    -- past both early returns the record names the connection
    have hnames : r.connectionID = connectionID ∧ r.connectionEpoch = epoch :=
      ⟨not_not.mp fun h => hstale (.inl ⟨hid, h⟩), not_not.mp fun h => hstale (.inr ⟨hepoch, h⟩)⟩
    rw [htables, hindex, Leaving.clear_leave]
    simp only [hnames, true_and]

/-! ## A session that moves to another gateway -/

namespace Moving

def managers (k : Nat) : Manager := { gateway1 with index := k }

def home (connectionID : String) : Nat := if connectionID = "c2" then 1 else 0

def sid : String := drawn1

def token : String := drawn2

def login : Option (Except GoErr Created × World) :=
  (create id (managers (home "c1")) "account" "c1" 0 "player").follow exec 0 [{ id := sid }, { id := token }, {}, {}, {}, {}]
    (World.init .memory 2 ∅ 0)

def resumption (w : World) : Option (Except GoErr Created × World) :=
  (resume id (managers (home "c2")) sid token "c2" 5).follow exec 1
    [{}, { id := drawn3 }, {}, {}, {}, {}] w

def leaving (w : World) : Option (Except GoErr Unit × World) :=
  (disconnect (managers (home "c1")) sid "c1" 7 1).follow exec 2 [{}, {}, {}, {}, {}, {}] w

def binds (r : Except GoErr Created) : Except GoErr (String × Nat) :=
  r.map fun given => (given.record.sessionID, given.record.connectionEpoch)

theorem login_leaving : login.any fun x => (leaving x.2).any fun y => binds x.1 = .ok (sid, 1) ∧
    (x.2.lookup (x.2.key sid)).map (fun r => (r.connectionID, r.connectionEpoch, r.accountID)) = some ("c1", 1, "account") ∧
    (x.2.tables 0).connections.lookup "c1" = some sid ∧ (x.2.tables 0).accountConnections.entries = [⟨"account", "c1"⟩] ∧
      y.1 = .ok () := by
  decide +kernel

theorem login_resumption_leaving : login.any fun x => (resumption x.2).any fun y => (leaving y.2).any fun z =>
    binds x.1 = .ok (sid, 1) ∧ z.1 = .ok () ∧ (z.2.tables 0).connections.lookup "c1" = some sid ∧
      (z.2.tables 0).accountConnections.lookup "account" = some "c1" := by
  decide +kernel

theorem give_other {own : Owned} {connectionID other : String} (h : connectionID ≠ other) (r : Except GoErr (String × Nat)) :
    own.give other r connectionID = own connectionID := by
  cases r with
  | error err => rfl
  | ok given => exact Function.update_of_ne h ..

end Moving

open Moving in
theorem disconnect_clears_login : ∃ w own w', Reached id managers home (World.init .memory 2 ∅ 0) w own ∧
    own "c1" = some (sid, 1) ∧ (disconnect (managers (home "c1")) sid "c1" 7 1).Leads exec 2 w (.ok ()) w' ∧
    (w'.tables (home "c1")).Clear "c1" := by
  obtain ⟨⟨given, w⟩, hlogin, h⟩ := (Option.any_eq_true ..).mp login_leaving
  obtain ⟨⟨left, w'⟩, hleaving, h⟩ := (Option.any_eq_true ..).mp h
  obtain ⟨hgiven, hrecord, hentry, hentries, rfl⟩ := of_decide_eq_true h
  have hreached : Reached id managers home (World.init .memory 2 ∅ 0) w (Owned.give (fun _ => none) "c1" (binds given)) :=
    .create .init (Prog.leads_follow hlogin)
  have hown : Owned.give (fun _ => none) "c1" (binds given) "c1" = some (sid, 1) := by
    rw [hgiven]
    rfl
  have hleads := Prog.leads_follow hleaving
  obtain ⟨r, hr, hiff⟩ := disconnect_clears_iff id managers (fun _ => rfl) home .memory 2 ∅ 0 w _ hreached sid "c1" 1 (by decide) hown
    2 7 w' hleads
  rw [hr] at hrecord
  cases r
  cases hrecord
  refine ⟨w, _, w', hreached, hown, hleads, hiff.mpr (.inr ⟨rfl, rfl, hentry, fun accountID h => ?_⟩)⟩
  have hmem : (⟨accountID, "c1"⟩ : Sigma fun _ : String => String) ∈ (w.tables 0).accountConnections.entries := AList.mem_lookup_iff.mp h
  rw [hentries] at hmem
  cases List.mem_singleton.mp hmem
  rfl

open Moving in
theorem moved_session_stays : ∃ w own w', Reached id managers home (World.init .memory 2 ∅ 0) w own ∧
    own "c1" = some (sid, 1) ∧ (disconnect (managers (home "c1")) sid "c1" 7 1).Leads exec 2 w (.ok ()) w' ∧
    (w'.tables (home "c1")).connections.lookup "c1" = some sid ∧
    (w'.tables (home "c1")).accountConnections.lookup "account" = some "c1" := by
  obtain ⟨⟨given, w₁⟩, hlogin, h⟩ := (Option.any_eq_true ..).mp login_resumption_leaving
  obtain ⟨⟨again, w₂⟩, hresumption, h⟩ := (Option.any_eq_true ..).mp h
  obtain ⟨⟨left, w₃⟩, hleaving, h⟩ := (Option.any_eq_true ..).mp h
  obtain ⟨hgiven, rfl, hconnections, haccount⟩ := of_decide_eq_true h
  refine ⟨w₂, _, w₃, .resume (.create .init (Prog.leads_follow hlogin)) (Prog.leads_follow hresumption), ?_,
    Prog.leads_follow hleaving, hconnections, haccount⟩
  rw [give_other (by decide)]
  exact congrArg (Owned.give (fun _ => none) "c1" · "c1") hgiven

end GameServer.Gateway
