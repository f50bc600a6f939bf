import GameServer.ConnectionSessions
import GameServer.Lockstep

/-!
# MemoryStore against RedisStore

The same calls of the managers over the two stores, in lockstep. `MemoryStore`
finds the previous holder of an account among the sessions; `RedisStore` keeps
it in a slot of its own. The stores agree, whatever the order in which the map is
scanned, as long as the slot holds the one session that the scan can find.
-/

namespace GameServer.Gateway

/-! ## When the stores agree -/

def World.Affords (w : World) (e : Env) : Cmd → Prop
  | .create r => 0 < w.ttl e r
  | .compareAndSwap _ r | .claimAccount _ r => millisecond ≤ w.ttl e r
  | _ => True

def Alive (r : World) : Prop := ∀ k entry, r.data.lookup k = some entry → r.clock < entry.deadline

structure Lasting (e : Env) (w : World) (c : Cmd) : Prop where
  works : e.fail = none
  alive : Alive { w with clock := w.clock + e.delay }
  ttl : World.Affords { w with clock := w.clock + e.delay } e c

def Record.Rivals (p : Record) (accountID : String) (r : Record) : Prop :=
  p.sessionID ≠ r.sessionID ∧ p.accountID = accountID ∧ p.connectionID ≠ ""

instance (p : Record) (accountID : String) (r : Record) : Decidable (p.Rivals accountID r) :=
  inferInstanceAs (Decidable (_ ∧ _))

def Settled (w : World) : Cmd → Prop
  -- the id does not lead to the slot of an account
  | .get id => ∀ accountID, w.key id = .account accountID → w.kept (.account accountID) = none
  -- the session has not been deleted since it was read
  | .compareAndSwap expected _ => (w.kept (.session expected.sessionID)).isSome
  -- the slot holds the only other connected session of the account
  | .claimAccount accountID r =>
    ∀ p, w.kept (.account accountID) = some p ↔ ∃ sid, w.kept (.session sid) = some p ∧ p.Rivals accountID r
  -- no session of the account has the connection any more
  | .releaseAccount accountID connectionID =>
    connectionID = "" ∨ ∀ sid p, w.kept (.session sid) = some p → p.accountID = accountID → p.connectionID ≠ connectionID
  | _ => True

def World.sessions (w : World) : List Record := w.data.entries.filterMap fun x => x.1.session?.map fun _ => x.2.record

theorem mem_sessions {w : World} {p : Record} : p ∈ w.sessions ↔ ∃ sid, w.kept (.session sid) = some p := by
  unfold World.sessions
  rw [List.mem_filterMap]
  constructor
  · rintro ⟨⟨k, entry⟩, hx, hp⟩
    cases k with
    | session sid => exact ⟨sid, by rw [World.kept, AList.mem_lookup_iff.mpr hx, ← hp]; rfl⟩
    | account accountID => cases hp
  · rintro ⟨sid, hp⟩
    obtain ⟨entry, hentry, rfl⟩ := Option.map_eq_some_iff.mp hp
    exact ⟨⟨.session sid, entry⟩, AList.mem_lookup_iff.mp hentry, rfl⟩

instance (w : World) (e : Env) : (c : Cmd) → Decidable (w.Affords e c)
  | .create r => inferInstanceAs (Decidable (0 < w.ttl e r))
  | .compareAndSwap _ r | .claimAccount _ r => inferInstanceAs (Decidable (millisecond ≤ w.ttl e r))
  | .now | .randomID | .get _ | .delete _ | .releaseAccount _ _ | .enter _ _ _ _ | .leave _ _ _ | .emit _ | .preempt _ _ | .publish _
  | .deliver _ | .bindSession _ _ _ | .schedule _ _ | .fire _ => .isTrue trivial

instance (w : World) : Decidable (Alive w) :=
  decidable_of_iff (∀ x ∈ w.data.entries, w.clock < x.2.deadline)
    ⟨fun h k entry hentry => h ⟨k, entry⟩ (AList.mem_lookup_iff.mp hentry),
      fun h x hx => h x.1 x.2 (AList.mem_lookup_iff.mpr hx)⟩

instance (e : Env) (w : World) (c : Cmd) : Decidable (Lasting e w c) :=
  decidable_of_iff (e.fail = none ∧ Alive { w with clock := w.clock + e.delay } ∧
      World.Affords { w with clock := w.clock + e.delay } e c)
    ⟨fun h => ⟨h.1, h.2.1, h.2.2⟩, fun h => ⟨h.works, h.alive, h.ttl⟩⟩

theorem settled_get_iff {w : World} {id : String} :
    Settled w (.get id) ↔ (w.key id).session? = none → w.kept (w.key id) = none := by
  simp only [Settled]
  cases w.key id <;> simp [Key.session?]

theorem settled_claim_iff {w : World} {accountID : String} {r : Record} :
    Settled w (.claimAccount accountID r) ↔
      (∀ p ∈ w.kept (.account accountID), p ∈ w.sessions ∧ p.Rivals accountID r) ∧
        ∀ p ∈ w.sessions, p.Rivals accountID r → w.kept (.account accountID) = some p := by
  simp only [Settled, mem_sessions, Option.mem_def]
  constructor
  · intro h
    refine ⟨fun p hp => ?_, fun p ⟨sid, hsid⟩ hrival => (h p).mpr ⟨sid, hsid, hrival⟩⟩
    obtain ⟨sid, hsid, hrival⟩ := (h p).mp hp
    exact ⟨⟨sid, hsid⟩, hrival⟩
  · intro ⟨hslot, hrivals⟩ p
    constructor
    · intro hp
      obtain ⟨⟨sid, hsid⟩, hrival⟩ := hslot p hp
      exact ⟨sid, hsid, hrival⟩
    · intro ⟨sid, hsid, hrival⟩
      exact hrivals p ⟨sid, hsid⟩ hrival

theorem settled_release_iff {w : World} {accountID connectionID : String} :
    Settled w (.releaseAccount accountID connectionID) ↔
      connectionID = "" ∨ ∀ p ∈ w.sessions, p.accountID = accountID → p.connectionID ≠ connectionID := by
  simp only [Settled, mem_sessions, forall_exists_index]
  exact or_congr Iff.rfl forall_comm

instance (w : World) : (c : Cmd) → Decidable (Settled w c)
  | .get _ => decidable_of_iff _ settled_get_iff.symm
  | .compareAndSwap expected _ => inferInstanceAs (Decidable ((w.kept (.session expected.sessionID)).isSome = true))
  | .claimAccount _ _ => decidable_of_iff _ settled_claim_iff.symm
  | .releaseAccount _ _ => decidable_of_iff _ settled_release_iff.symm
  | .now | .randomID | .create _ | .delete _ | .enter _ _ _ _ | .leave _ _ _ | .emit _ | .preempt _ _ | .publish _
  | .deliver _ | .bindSession _ _ _ | .schedule _ _ | .fire _ => .isTrue trivial

def HoldSame (m r : World) : Prop := ∀ sid, m.kept (.session sid) = r.kept (.session sid)

def Agree (i : Nat) (e : Env) (m r : World) (c : Cmd) : Prop :=
  ∀ order, Pool.Matches HoldSame (exec i { e with order } m c) (exec i e r c)

def Proper (w : World) : Cmd → Prop
  | .create r => isRandomID r.sessionID = true ∧ w.kept (.session r.sessionID) = none
  | .get id => ∀ r, w.kept (.session id) = some r → isRandomID id = true
  | .compareAndSwap expected updated => isRandomID updated.sessionID = true ∧ expected.sessionID = updated.sessionID
  | .delete id => isRandomID id = true
  | _ => True

/-! ## The two worlds -/

structure Twins (m r : World) : Prop where
  redis : r.store = .redis
  rest : m = { r with store := .memory, data := m.data }
  sessions : HoldSame m r
  accounts : ∀ accountID, m.kept (.account accountID) = none

section
variable {i : Nat} {e : Env} {m r m' r' : World} {order : List Nat}

theorem Twins.memory (h : Twins m r) : m.store = .memory := by rw [h.rest]

theorem Twins.tick (h : Twins m r) (t : Nat) : Twins { m with clock := m.clock + t } { r with clock := r.clock + t } := by
  refine ⟨h.redis, ?_, h.sessions, h.accounts⟩
  exact congrArg (fun w : World => { w with clock := w.clock + t }) h.rest

theorem Twins.of_data (h : Twins m r) (hm : m' = { m with data := m'.data }) (hr : r' = { r with data := r'.data })
    (hsessions : HoldSame m' r') (haccounts : ∀ accountID, m'.kept (.account accountID) = none) : Twins m' r' := by
  refine ⟨?_, ?_, hsessions, haccounts⟩
  · rw [hr]
    exact h.redis
  · calc m' = { m with data := m'.data } := hm
      _ = { r with store := .memory, data := m'.data } := congrArg (fun w : World => { w with data := m'.data }) h.rest
      _ = { r' with store := .memory, data := m'.data } :=
        (congrArg (fun w : World => { w with store := .memory, data := m'.data }) hr).symm

theorem lookup_memory (h : m.store = .memory) (k : Key) : m.lookup k = m.kept k := by
  unfold World.lookup World.kept
  cases m.data.lookup k <;> simp [h]

theorem lookup_alive (h : Alive r) (k : Key) : r.lookup k = r.kept k := by
  unfold World.lookup World.kept
  cases hentry : r.data.lookup k with
  | none => rfl
  | some entry =>
    have hlt := h k entry hentry
    simp [Nat.not_le.mpr hlt]

theorem Twins.put (h : Twins m r) (sid : String) (rec : Record) (d d' : Time) :
    Twins (m.put (.session sid) rec d) (r.put (.session sid) rec d') := by
  refine h.of_data rfl rfl (fun sid' => ?_) fun accountID => ?_
  · rw [kept_put, kept_put, h.sessions sid']
  · rw [kept_put, if_neg nofun]
    exact h.accounts accountID

/-! ## One command on both -/

variable {c : Cmd} {rec : Record} {accountID : String}

theorem answer_aside (hc : Aside c) (w : World) (store : StoreKind) (data : AList fun _ : Key => Entry) :
    World.answer { w with store, data } i { e with order } c =
      (w.answer i e c).map fun x => (x.1, { x.2 with store, data }) := by
  cases c with
  | create _ | get _ | compareAndSwap _ _ | delete _ | claimAccount _ _ | releaseAccount _ _ => exact hc.elim
  | now | enter _ _ _ _ | leave _ _ _ | emit _ | publish _ | schedule _ _ => rfl
  | randomID =>
    simp only [World.answer]
    split <;> rfl
  | preempt g n =>
    simp only [World.answer, World.preempt, Option.map_some]
    split
    · rfl
    · split
      · rfl
      · split <;> rfl
  | deliver g =>
    simp only [World.answer, World.deliver]
    split
    · rfl
    · simp only [World.preempt, Option.map_some]
      split
      · rfl
      · split
        · rfl
        · split <;> rfl
  | bindSession connectionID sessionID epoch =>
    simp only [World.answer, World.bindSession, Option.map_some]
    split <;> rfl
  | fire k =>
    simp only [World.answer, World.fire]
    split
    · rfl
    · split <;> rfl

theorem data_aside {a : Ans c} {w w' : World} (hc : Aside c) (h : w.answer i e c = some (a, w')) :
    w'.data = w.data := by
  have hsame : w.answer i e c = (w.answer i e c).map fun x => (x.1, { x.2 with store := w.store, data := w.data }) :=
    answer_aside hc w w.store w.data
  rw [h] at hsame
  have hworld : w' = { w' with store := w.store, data := w.data } := congrArg Prod.snd (Option.some.inj hsame)
  rw [hworld]

theorem matches_aside (hc : Aside c) (h : Twins m r) :
    Pool.Matches Twins (m.answer i { e with order } c) (r.answer i e c) := by
  rw [h.rest, answer_aside hc]
  cases hx : r.answer i e c with
  | none => trivial
  | some x =>
    have hdata := data_aside hc hx
    have hstore := (beside_answer hx).2.store
    refine ⟨rfl, hstore.trans h.redis, rfl, fun sid => ?_, fun accountID => h.accounts accountID⟩
    exact (h.sessions sid).trans (kept_of_data hdata _).symm

theorem matches_create (h : Twins m r) (ha : Alive r) (httl : r.Affords e (.create rec))
    (hp : Proper r (.create rec)) :
    Pool.Matches Twins (m.answer i { e with order } (.create rec)) (r.answer i e (.create rec)) := by
  have hm : m.lookup (.session rec.sessionID) = none := by
    rw [lookup_memory h.memory, h.sessions, hp.2]
  have hr : r.lookup (.session rec.sessionID) = none := by
    rw [lookup_alive ha, hp.2]
  have hpos : r.ttl e rec ≠ 0 := Nat.ne_of_gt httl
  simp only [World.answer, World.create, h.memory, h.redis, key_of_isRandomID hp.1, hm, hr, hpos, Option.isSome_none, commit,
    if_false, Bool.false_eq_true]
  exact ⟨rfl, h.put _ rec _ _⟩

theorem matches_compareAndSwap {expected updated : Record} (h : Twins m r) (ha : Alive r)
    (httl : r.Affords e (.compareAndSwap expected updated)) (hp : Proper r (.compareAndSwap expected updated))
    (hs : Settled r (.compareAndSwap expected updated)) :
    Pool.Matches Twins (m.answer i { e with order } (.compareAndSwap expected updated))
      (r.answer i e (.compareAndSwap expected updated)) := by
  obtain ⟨current, hcurrent⟩ := Option.isSome_iff_exists.mp hs
  rw [hp.2] at hcurrent
  have hm : m.lookup (.session expected.sessionID) = some current := by
    rw [lookup_memory h.memory, h.sessions, hp.2, hcurrent]
  have hr : r.lookup (.session updated.sessionID) = some current := by
    rw [lookup_alive ha, hcurrent]
  have hpos : r.ttl e updated ≠ 0 := Nat.ne_of_gt (Nat.lt_of_lt_of_le (by decide) httl)
  have hmilli : r.ttl e updated / millisecond ≠ 0 := Nat.ne_of_gt (Nat.div_pos httl (by decide))
  simp only [World.answer, World.compareAndSwap, h.memory, h.redis, key_of_isRandomID hp.1, hm, hr, hpos, hmilli, if_false, ne_eq,
    Option.some.injEq]
  by_cases heq : current = expected
  · simp only [heq, if_true, not_true_eq_false, if_false, commitWith]
    exact ⟨rfl, h.put _ updated _ _⟩
  · simp only [heq, if_false, not_false_eq_true, if_true, commitWith]
    exact ⟨rfl, h⟩

theorem matches_delete {id : String} (h : Twins m r) (hp : Proper r (.delete id)) :
    Pool.Matches Twins (m.answer i { e with order } (.delete id)) (r.answer i e (.delete id)) := by
  refine ⟨rfl, h.of_data rfl rfl (fun sid => ?_) fun accountID => ?_⟩
  · rw [kept_delete, kept_delete, key_memory h.memory, key_of_isRandomID hp, h.sessions sid]
  · rw [kept_delete, h.accounts accountID, ite_self]

theorem key_cases (r : World) (id : String) : r.key id = .session id ∨ ∃ accountID, r.key id = .account accountID := by
  unfold World.key
  split
  · exact .inr ⟨_, rfl⟩
  · exact .inl rfl

theorem kept_of_account {id : String} (hkey : r.key id = .account accountID) (hp : Proper r (.get id)) :
    r.kept (.session id) = none := by
  cases hkept : r.kept (.session id) with
  | none => rfl
  | some rec =>
    rw [key_of_isRandomID (hp rec hkept)] at hkey
    cases hkey

theorem get_memory (h : Twins m r) (id : String) :
    m.get id = match r.kept (.session id) with
      | some rec => .ok rec
      | none => .error errNotFound := by
  have hkey : m.lookup (m.key id) = r.kept (.session id) := by
    rw [key_memory h.memory, lookup_memory h.memory, h.sessions]
  cases hkept : r.kept (.session id) <;> simp only [World.get, hkey, hkept]

theorem get_redis (ha : Alive r) (id : String) :
    r.get id = match r.kept (r.key id) with
      | some rec => .ok rec
      | none => .error errNotFound := by
  cases hkept : r.kept (r.key id) <;> simp only [World.get, lookup_alive ha, hkept]

theorem get_eq_iff {id : String} (h : Twins m r) (ha : Alive r) (hp : Proper r (.get id)) :
    m.get id = r.get id ↔ Settled r (.get id) := by
  rw [get_memory h, get_redis ha]
  rcases key_cases r id with hkey | ⟨accountID, hkey⟩
  · rw [hkey]
    refine iff_of_true rfl fun accountID hacc => ?_
    cases hkey.symm.trans hacc
  · rw [hkey, kept_of_account hkey hp]
    constructor
    · intro heq accountID' hkey'
      cases hkey.symm.trans hkey'
      cases hslot : r.kept (.account accountID) with
      | none => rfl
      | some rec => simp [hslot] at heq
    · intro hs
      rw [hs accountID hkey]

theorem exists_entry_iff {p : Record} (h : Twins m r) :
    (∃ x ∈ m.data.entries, x.2.record = p) ↔ ∃ sid, r.kept (.session sid) = some p := by
  constructor
  · rintro ⟨⟨k, entry⟩, hx, hrec⟩
    have hkept : m.kept k = some p := by
      rw [World.kept, AList.mem_lookup_iff.mpr hx]
      exact congrArg some hrec
    cases k with
    | session sid => exact ⟨sid, h.sessions sid ▸ hkept⟩
    | account accountID => cases (h.accounts accountID).symm.trans hkept
  · rintro ⟨sid, hkept⟩
    rw [← h.sessions sid] at hkept
    obtain ⟨entry, hentry, hrec⟩ := Option.map_eq_some_iff.mp hkept
    exact ⟨⟨.session sid, entry⟩, AList.mem_lookup_iff.mp hentry, hrec⟩

def World.scan (m : World) (order : List Nat) (accountID : String) (rec : Record) : Option Record :=
  ((shuffle order m.data.entries).find? fun x => decide (x.2.record.Rivals accountID rec)).map (·.2.record)

theorem scan_none (hnone : m.scan order accountID rec = none) {p : Record}
    (hp : ∃ x ∈ m.data.entries, x.2.record = p) : ¬ p.Rivals accountID rec := by
  obtain ⟨x, hx, rfl⟩ := hp
  have hfind := Option.map_eq_none_iff.mp hnone
  simpa using List.find?_eq_none.mp hfind x (mem_shuffle.mpr hx)

theorem scan_some {p : Record} (hsome : m.scan order accountID rec = some p) :
    (∃ x ∈ m.data.entries, x.2.record = p) ∧ p.Rivals accountID rec := by
  obtain ⟨x, hfind, rfl⟩ := Option.map_eq_some_iff.mp hsome
  have hx := mem_shuffle.mp (List.mem_of_find?_eq_some hfind)
  exact ⟨⟨x, hx, rfl⟩, by simpa using List.find?_some hfind⟩

theorem exists_scan {p : Record} (hp : ∃ x ∈ m.data.entries, x.2.record = p) (hrival : p.Rivals accountID rec) :
    ∃ order, m.scan order accountID rec = some p := by
  obtain ⟨x, hx, rfl⟩ := hp
  obtain ⟨front, back, heq⟩ := List.append_of_mem hx
  have hperm : (x :: (front ++ back)).Perm m.data.entries := by
    rw [heq]
    exact List.perm_middle.symm
  obtain ⟨order, horder⟩ := exists_shuffle_of_perm hperm
  refine ⟨order, ?_⟩
  rw [World.scan, horder, List.find?_cons_of_pos (by simpa using hrival), Option.map_some]

theorem scan_eq_iff (h : Twins m r) :
    (∀ order, m.scan order accountID rec = r.kept (.account accountID)) ↔ Settled r (.claimAccount accountID rec) := by
  constructor
  · intro hall p
    constructor
    · intro hslot
      obtain ⟨hentry, hrival⟩ := scan_some ((hall []).trans hslot)
      obtain ⟨sid, hsid⟩ := (exists_entry_iff h).mp hentry
      exact ⟨sid, hsid, hrival⟩
    · intro ⟨sid, hsid, hrival⟩
      obtain ⟨order, hscan⟩ := exists_scan ((exists_entry_iff h).mpr ⟨sid, hsid⟩) hrival
      exact (hall order).symm.trans hscan
  · intro hs order
    cases hscan : m.scan order accountID rec with
    | some p =>
      obtain ⟨hentry, hrival⟩ := scan_some hscan
      obtain ⟨sid, hsid⟩ := (exists_entry_iff h).mp hentry
      exact ((hs p).mpr ⟨sid, hsid, hrival⟩).symm
    | none =>
      cases hslot : r.kept (.account accountID) with
      | none => rfl
      | some p =>
        obtain ⟨sid, hsid, hrival⟩ := (hs p).mp hslot
        exact absurd hrival (scan_none hscan ((exists_entry_iff h).mpr ⟨sid, hsid⟩))

theorem answer_claim_memory (h : Twins m r) :
    m.answer i { e with order } (.claimAccount accountID rec) = some (.ok (m.scan order accountID rec), m) := by
  simp only [World.answer, World.claimAccount, h.memory, commitWith]
  rfl

theorem answer_claim_redis (h : Twins m r) (ha : Alive r) (httl : r.Affords e (.claimAccount accountID rec)) :
    ∃ d, r.answer i e (.claimAccount accountID rec) =
      some (.ok (r.kept (.account accountID)), r.put (.account accountID) rec d) := by
  have hpos : r.ttl e rec ≠ 0 := Nat.ne_of_gt (Nat.lt_of_lt_of_le (by decide) httl)
  have hmilli : r.ttl e rec / millisecond ≠ 0 := Nat.ne_of_gt (Nat.div_pos httl (by decide))
  simp only [World.answer, World.claimAccount, h.redis, hpos, hmilli, if_false, lookup_alive ha, commitWith]
  exact ⟨_, rfl⟩

theorem Twins.claim (h : Twins m r) (accountID : String) (rec : Record) (d : Time) :
    Twins m (r.put (.account accountID) rec d) := by
  refine h.of_data rfl rfl (fun sid => ?_) h.accounts
  rw [kept_put, if_neg nofun]
  exact h.sessions sid

/-! ### Releases -/

theorem kept_release_memory {w : World} {connectionID : String} (hw : w.store = .memory) (k : Key) :
    (w.releaseAccount accountID connectionID).kept k = (w.kept k).map fun p =>
      if p.accountID = accountID ∧ p.connectionID = connectionID then { p with connectionID := "" } else p := by
  simp only [World.releaseAccount, hw, World.kept, lookup_mapAll, Option.map_map]
  congr 1
  funext entry
  simp only [Function.comp]
  split <;> rfl

theorem kept_release_redis {w : World} {connectionID sid : String} (hw : w.store = .redis) :
    (w.releaseAccount accountID connectionID).kept (.session sid) = w.kept (.session sid) := by
  simp only [World.releaseAccount, hw]
  cases w.lookup (.account accountID) with
  | none => rfl
  | some rec =>
    by_cases hconn : rec.connectionID = connectionID
    · have hne : Key.session sid ≠ .account accountID := nofun
      simp only [hconn, if_true, World.kept, AList.lookup_erase_ne hne]
    · simp only [hconn, if_false]

theorem release_same_iff {connectionID : String} (h : Twins m r) :
    HoldSame (m.releaseAccount accountID connectionID) (r.releaseAccount accountID connectionID) ↔
      Settled r (.releaseAccount accountID connectionID) := by
  simp only [HoldSame, kept_release_memory h.memory, kept_release_redis h.redis, h.sessions _]
  constructor
  · intro hsame
    by_cases hempty : connectionID = ""
    · exact .inl hempty
    · refine .inr fun sid p hp haccount hconn => hempty ?_
      have hcleared := hsame sid
      simp only [hp, Option.map_some, haccount, hconn, and_self, if_true, Option.some.injEq] at hcleared
      exact (hconn.symm.trans (congrArg Record.connectionID hcleared).symm)
  · intro hs sid
    cases hp : r.kept (.session sid) with
    | none => rfl
    | some p =>
      rw [Option.map_some]
      split
      · rename_i hnamed
        rcases hs with hempty | hnone
        · rw [hempty] at hnamed
          rw [← hnamed.2]
        · exact absurd hnamed.2 (hnone sid p hp hnamed.1)
      · rfl

theorem Twins.release {connectionID : String} (h : Twins m r)
    (hs : Settled r (.releaseAccount accountID connectionID)) :
    Twins (m.releaseAccount accountID connectionID) (r.releaseAccount accountID connectionID) := by
  refine h.of_data (releaseAccount_eq ..) (releaseAccount_eq ..) ((release_same_iff h).mpr hs) fun accountID' => ?_
  rw [kept_release_memory h.memory, h.accounts accountID', Option.map_none]

/-! ### Every command -/

theorem matches_answer (h : Twins m r) (ha : Alive r) (httl : r.Affords e c) (hp : Proper r c) (hs : Settled r c) :
    Pool.Matches Twins (m.answer i { e with order } c) (r.answer i e c) := by
  cases c with
  | create rec => exact matches_create h ha httl hp
  | compareAndSwap expected updated => exact matches_compareAndSwap h ha httl hp hs
  | delete id => exact matches_delete h hp
  | get id => exact ⟨(get_eq_iff h ha hp).mpr hs, h⟩
  | releaseAccount accountID connectionID => exact ⟨rfl, h.release hs⟩
  | claimAccount accountID rec =>
    obtain ⟨d, hr⟩ := answer_claim_redis h ha httl
    rw [answer_claim_memory h, hr]
    exact ⟨congrArg Except.ok ((scan_eq_iff h).mpr hs order), h.claim accountID rec d⟩
  | _ => exact matches_aside trivial h

theorem settled_of_agree (h : Twins m r) (ha : Alive r) (httl : r.Affords e c) (hp : Proper r c)
    (hagree : ∀ order, Pool.Matches HoldSame (m.answer i { e with order } c) (r.answer i e c)) : Settled r c := by
  cases c with
  | get id => exact (get_eq_iff h ha hp).mp (hagree []).1
  | releaseAccount accountID connectionID => exact (release_same_iff h).mp (hagree []).2
  | claimAccount accountID rec =>
    obtain ⟨d, hr⟩ := answer_claim_redis (i := i) h ha httl
    refine (scan_eq_iff h).mp fun order => ?_
    have hsame := hagree order
    rw [answer_claim_memory h, hr] at hsame
    exact Except.ok.inj hsame.1
  | compareAndSwap expected updated =>
    show (r.kept (.session expected.sessionID)).isSome
    cases hkept : r.kept (.session expected.sessionID) with
    | some current => rfl
    | none =>
      have hm : m.lookup (.session expected.sessionID) = none := by
        rw [lookup_memory h.memory, h.sessions, hkept]
      have hr : r.lookup (.session updated.sessionID) = none := by
        rw [lookup_alive ha, ← hp.2, hkept]
      have hpos : r.ttl e updated ≠ 0 := Nat.ne_of_gt (Nat.lt_of_lt_of_le (by decide) httl)
      have hsame := hagree []
      simp [World.answer, World.compareAndSwap, h.memory, h.redis, key_of_isRandomID hp.1, hm, hr, hpos, commitWith,
        Pool.Matches] at hsame
  | _ => trivial

theorem holdSame_of_matches : ∀ {x y : Option (Ans c × World)}, Pool.Matches Twins x y → Pool.Matches HoldSame x y
  | some _, some _, h => ⟨h.1, h.2.sessions⟩
  | none, none, _ => trivial

theorem agree_iff (h : Twins m r) (hl : Lasting e r c) (hp : Proper r c) : Agree i e m r c ↔ Settled r c := by
  have ht := h.tick e.delay
  have hm : ∀ order, exec i { e with order } m c = World.answer { m with clock := m.clock + e.delay } i { e with order } c := by
    intro order
    simp only [exec, hl.works]
  have hr : exec i e r c = World.answer { r with clock := r.clock + e.delay } i e c := by
    simp only [exec, hl.works]
  unfold Agree
  simp only [hm, hr]
  constructor
  · intro hagree
    have hs : Settled { r with clock := r.clock + e.delay } c := settled_of_agree ht hl.alive hl.ttl hp hagree
    exact hs
  · exact fun hs order => holdSame_of_matches (matches_answer ht hl.alive hl.ttl hp hs)

theorem matches_exec (h : Twins m r) (hl : Lasting e r c) (hp : Proper r c) (hs : Settled r c) :
    Pool.Matches Twins (exec i e m c) (exec i e r c) := by
  have hm : Pool.Matches Twins (World.answer { m with clock := m.clock + e.delay } i { e with order := e.order } c)
      (World.answer { r with clock := r.clock + e.delay } i e c) := matches_answer (h.tick e.delay) hl.alive hl.ttl hp hs
  simpa only [exec, hl.works] using hm

end

/-! ## What the manager asks of a store -/

namespace Issued

structure Inv (w : World) : Prop extends Named.Inv w where
  drawn : ∀ sid r, w.kept (.session sid) = some r → sid ∈ w.issued.map (·.1)
  once : ∀ sid i j, (sid, i) ∈ w.issued → (sid, j) ∈ w.issued → i = j
  timers : ∀ t ∈ w.timers, isRandomID t.disconnected.sessionID = true

structure Rely (j : Nat) (w w' : World) : Prop where
  issued : ∀ x ∈ w.issued, x ∈ w'.issued
  unborn : ∀ sid, (sid, j) ∈ w.issued → w.kept (.session sid) = none → w'.kept (.session sid) = none

theorem Rely.refl (j : Nat) (w : World) : Rely j w w := ⟨fun _ h => h, fun _ _ h => h⟩

theorem Rely.trans (j : Nat) (a b c : World) (h : Rely j a b) (h' : Rely j b c) : Rely j a c :=
  ⟨fun x hx => h'.issued x (h.issued x hx), fun sid hmine hnone => h'.unborn sid (h.issued _ hmine) (h.unborn sid hmine hnone)⟩

def Sound {α : Type} (i : Nat) (p : Prog Ans α) (w : World) : Prop :=
  ∀ ok, Pool.Safe (Pool.checked exec fun _ _ => Proper) (fun _ _ _ _ => True) (fun x => Inv x.1 ∧ x.2)
    (fun j a b => Rely j a.1 b.1) i (fun _ _ => True) p (w, ok)

variable {i : Nat} {e : Env} {w w' : World} {α : Type} {d : Cmd}

theorem Sound.bind {β : Type} {p : Prog Ans α} {f : α → Prog Ans β} (hp : Sound i p w) (hf : ∀ a w', Sound i (f a) w') :
    Sound i (p >>= f) w :=
  fun ok => Pool.Safe.bind ((hp ok).mono fun x a _ => hf a x.1 x.2)

theorem sound_call {k : Ans d → Prog Ans α}
    (h : ∀ e w₁ r w₂, Rely i w w₁ → Inv w₁ → exec i e w₁ d = some (r, w₂) →
      Proper w₁ d ∧ Inv w₂ ∧ (∀ j, j ≠ i → Rely j w₁ w₂) ∧ Sound i (k r) w₂) :
    Sound i (.call d k) w := by
  intro ok e x r y hrely hinv _ hx
  obtain ⟨hexec, hok⟩ := Pool.checked_eq_some hx
  obtain ⟨hproper, hinv', hrely', hk⟩ := h e x.1 r y.1 hrely hinv.1 hexec
  exact ⟨⟨hinv', hok.mpr ⟨hinv.2, hproper⟩⟩, hrely', hk y.2⟩

def Plain : Cmd → Prop
  | .randomID | .create _ | .compareAndSwap _ _ | .delete _ | .schedule _ _ => False
  | .claimAccount _ r => isRandomID r.sessionID = true
  | _ => True

theorem Plain.mild (h : Plain d) : Named.Mild d := by
  cases d with
  | randomID | delete _ | schedule _ _ => trivial
  | _ => exact h

theorem Inv.timers_beside (h : Inv w) (hb : Beside d w w') (hd : ∀ r t, d = .schedule r t → isRandomID r.sessionID = true) (t : Timer)
    (ht : t ∈ w'.timers) : isRandomID t.disconnected.sessionID = true := by
  rcases hb.timers t ht with ⟨expiresAt, rfl⟩ | ⟨t', ht', heq⟩
  · exact hd _ expiresAt rfl
  · rw [← heq]
    exact h.timers t' ht'

theorem step_mild {r : Ans d} (h : Inv w) (hx : exec i e w d = some (r, w')) (hd : Named.Mild d) (hid : d ≠ .randomID)
    (hs : ∀ r t, d = .schedule r t → isRandomID r.sessionID = true) : Inv w' ∧ ∀ j, Rely j w w' := by
  have hbeside := (beside_exec hx).2
  have hissued := hbeside.issued hid
  have hsheds := sheds_exec hx hd.shedding
  refine ⟨⟨Named.inv_mild h.toInv hx hd, fun sid r' hr' => ?_, ?_, h.timers_beside hbeside hs⟩, fun j => ⟨?_, ?_⟩⟩
  · obtain ⟨r, hr, -⟩ := hsheds sid r' hr'
    rw [hissued]
    exact h.drawn sid r hr
  · rw [hissued]
    exact h.once
  · rw [hissued]
    exact fun _ hx => hx
  · intro sid _ hnone
    cases hkept : w'.kept (.session sid) with
    | none => rfl
    | some r' =>
      obtain ⟨r, hr, -⟩ := hsheds sid r' hkept
      cases hnone.symm.trans hr

theorem call_plain {k : Ans d → Prog Ans α} (hd : Plain d)
    (hk : ∀ e w₁ r w₂, Rely i w w₁ → Inv w₁ → exec i e w₁ d = some (r, w₂) → Rely i w₁ w₂ → Sound i (k r) w₂) :
    Sound i (.call d k) w := by
  refine sound_call fun e w₁ r w₂ hrely hi hx => ?_
  have hid : d ≠ .randomID := fun h => by
    subst h
    exact hd
  have hs : ∀ r t, d = .schedule r t → isRandomID r.sessionID = true := fun _ _ h => by
    subst h
    exact hd.elim
  obtain ⟨hi', hrely'⟩ := step_mild hi hx hd.mild hid hs
  refine ⟨?_, hi', fun j _ => hrely' j, hk e w₁ r w₂ hrely hi hx (hrely' i)⟩
  cases d with
  | get id => exact fun r hr => (hi.sessions id r hr).2
  | create _ | compareAndSwap _ _ | delete _ => exact hd.elim
  | _ => trivial

theorem sound_ret (a : α) : Sound i (.ret a) w := fun _ => trivial

theorem sound_uses : ∀ {p : Prog Ans α} {w : World}, p.Uses Plain → Sound i p w
  | .ret a, _, _ => sound_ret a
  | .call _ _, _, hp => call_plain hp.1 fun _ _ r _ _ _ _ _ => sound_uses (hp.2 r)

structure Mine (i : Nat) (sid : String) (w : World) : Prop where
  issued : (sid, i) ∈ w.issued
  unborn : w.kept (.session sid) = none

theorem Mine.rely {sid : String} (h : Mine i sid w) (hr : Rely i w w') : Mine i sid w' :=
  ⟨hr.issued _ h.issued, hr.unborn sid h.issued h.unborn⟩

theorem call_randomID {k : Except GoErr String → Prog Ans α}
    (hk : ∀ r w₁, Rely i w w₁ → (∀ sid, r = .ok sid → isRandomID sid = true ∧ Mine i sid w₁) → Sound i (k r) w₁) :
    Sound i (.call .randomID k) w := by
  refine sound_call fun e w₁ r w₂ hrely hi hx => ?_
  have hnamed := Named.inv_mild hi.toInv hx trivial
  have htimers := hi.timers_beside (beside_exec hx).2 nofun
  rcases exec_randomID hx with ⟨rfl, hne⟩ | ⟨sid, rfl, hid, hfresh, hdata, hissued⟩
  · refine ⟨trivial, ⟨hnamed, hi.drawn, hi.once, htimers⟩, fun j _ => ⟨fun _ hx => hx, fun _ _ hnone => hnone⟩, ?_⟩
    exact hk r _ ⟨hrely.issued, hrely.unborn⟩ fun sid heq => absurd heq (hne sid)
  · have hgrows : ∀ j, Rely j w₁ w₂ := by
      refine fun j => ⟨fun x hx => ?_, fun sid' _ hnone => ?_⟩
      · rw [hissued]
        exact List.mem_cons_of_mem _ hx
      · rwa [kept_of_data hdata]
    have hunborn : w₂.kept (.session sid) = none := by
      rw [kept_of_data hdata]
      cases hkept : w₁.kept (.session sid) with
      | none => rfl
      | some rec => exact absurd (hi.drawn sid rec hkept) hfresh
    have honce : ∀ sid' i' j', (sid', i') ∈ w₂.issued → (sid', j') ∈ w₂.issued → i' = j' := by
      -- an id that was drawn before is another one
      have hother : ∀ j', (sid, j') ∉ w₁.issued := fun j' hmem => hfresh (List.mem_map.mpr ⟨_, hmem, rfl⟩)
      intro sid' i' j' hi' hj'
      rw [hissued] at hi' hj'
      by_cases heq : sid' = sid
      · subst heq
        simp only [List.mem_cons, Prod.mk.injEq, true_and, hother, or_false] at hi' hj'
        rw [hi', hj']
      · simp only [List.mem_cons, Prod.mk.injEq, heq, false_and, false_or] at hi' hj'
        exact hi.once sid' i' j' hi' hj'
    refine ⟨trivial, ⟨hnamed, fun sid' rec hrec => ?_, honce, htimers⟩, fun j _ => hgrows j, ?_⟩
    · rw [kept_of_data hdata] at hrec
      rw [hissued]
      exact List.mem_cons_of_mem _ (hi.drawn sid' rec hrec)
    · refine hk _ w₂ (Rely.trans i _ _ _ hrely (hgrows i)) fun sid' heq => ?_
      cases heq
      exact ⟨hid, by rw [hissued]; exact List.mem_cons_self .., hunborn⟩

theorem step_insert (h : Inv w) (hb : Beside d w w') (hd : d ≠ .randomID) (hs : ∀ r t, d ≠ .schedule r t) {rec : Record} {t : Time}
    (hdata : w'.data = w.data.insert (.session rec.sessionID) ⟨rec, t⟩) (hid : isRandomID rec.sessionID = true)
    (hdrawn : rec.sessionID ∈ w.issued.map (·.1))
    (hmine : ∀ j, j ≠ i → (rec.sessionID, j) ∈ w.issued → w.kept (.session rec.sessionID) ≠ none) :
    Inv w' ∧ ∀ j, j ≠ i → Rely j w w' := by
  have hissued := hb.issued hd
  have hkept : ∀ sid, sid ≠ rec.sessionID → w'.kept (.session sid) = w.kept (.session sid) := by
    intro sid hne
    have hk : Key.session sid ≠ .session rec.sessionID := fun h => hne (Key.session.inj h)
    rw [World.kept, hdata, AList.lookup_insert_ne hk, World.kept]
  refine ⟨⟨h.toInv.insert hdata hid, fun sid r hr => ?_, ?_, h.timers_beside hb fun r t h => absurd h (hs r t)⟩,
    fun j hj => ⟨?_, fun sid hsid hnone => ?_⟩⟩
  · rw [hissued]
    by_cases heq : sid = rec.sessionID
    · rw [heq]
      exact hdrawn
    · exact h.drawn sid r (hkept sid heq ▸ hr)
  · rw [hissued]
    exact h.once
  · rw [hissued]
    exact fun _ hx => hx
  · by_cases heq : sid = rec.sessionID
    · subst heq
      exact absurd hnone (hmine j hj hsid)
    · rw [hkept sid heq, hnone]

theorem step_data (h : Inv w) (hb : Beside d w w') (hd : d ≠ .randomID) (hs : ∀ r t, d ≠ .schedule r t)
    (hdata : w'.data = w.data) : Inv w' ∧ ∀ j, Rely j w w' := by
  have hissued := hb.issued hd
  refine ⟨⟨h.toInv.of_data hdata, fun sid r hr => ?_, ?_, h.timers_beside hb fun r t h => absurd h (hs r t)⟩,
    fun j => ⟨?_, fun sid _ hnone => ?_⟩⟩
  · rw [kept_of_data hdata] at hr
    rw [hissued]
    exact h.drawn sid r hr
  · rw [hissued]
    exact h.once
  · rw [hissued]
    exact fun _ hx => hx
  · rwa [kept_of_data hdata]

theorem call_create {rec : Record} {k : Except GoErr Unit → Prog Ans α} (hid : isRandomID rec.sessionID = true)
    (hmine : Mine i rec.sessionID w) (hk : ∀ r w₁, Sound i (k r) w₁) : Sound i (.call (.create rec) k) w := by
  refine sound_call fun e w₁ r w₂ hrely hi hx => ?_
  have hmine₁ := hmine.rely hrely
  refine ⟨⟨hid, hmine₁.unborn⟩, ?_⟩
  have hbeside := (beside_exec hx).2
  rcases data_create hx with ⟨-, hdata⟩ | ⟨-, t, hdata⟩
  · obtain ⟨hi', hrely'⟩ := step_data hi hbeside nofun nofun hdata
    exact ⟨hi', fun j _ => hrely' j, hk r w₂⟩
  · rw [key_of_isRandomID hid] at hdata
    have hdrawn : rec.sessionID ∈ w₁.issued.map (·.1) := List.mem_map.mpr ⟨_, hmine₁.issued, rfl⟩
    obtain ⟨hi', hrely'⟩ := step_insert hi hbeside nofun nofun hdata hid hdrawn fun j hj hother =>
      absurd (hi.once _ _ _ hother hmine₁.issued) hj
    exact ⟨hi', hrely', hk r w₂⟩

theorem call_swap {expected updated : Record} {k : Except GoErr Bool → Prog Ans α} (hid : isRandomID updated.sessionID = true)
    (hsid : expected.sessionID = updated.sessionID) (hk : ∀ r w₁, Sound i (k r) w₁) :
    Sound i (.call (.compareAndSwap expected updated) k) w := by
  refine sound_call fun e w₁ r w₂ hrely hi hx => ⟨⟨hid, hsid⟩, ?_⟩
  have hbeside := (beside_exec hx).2
  rcases exec_compareAndSwap hx hid hsid with ⟨rfl, -⟩ | ⟨-, hold, -, t, rfl⟩
  · obtain ⟨hi', hrely'⟩ := step_data hi hbeside nofun nofun rfl
    exact ⟨hi', fun j _ => hrely' j, hk r _⟩
  · have hkept := kept_of_lookup hold
    obtain ⟨hi', hrely'⟩ := step_insert hi hbeside nofun nofun rfl hid (hi.drawn _ _ hkept) fun j _ _ hnone => by
      cases hnone.symm.trans hkept
    exact ⟨hi', hrely', hk r _⟩

theorem call_mild {k : Ans d → Prog Ans α} (hd : Named.Mild d) (hne : d ≠ .randomID)
    (hs : ∀ r t, d = .schedule r t → isRandomID r.sessionID = true) (hp : ∀ w, Inv w → Proper w d)
    (hk : ∀ r w₁, Sound i (k r) w₁) : Sound i (.call d k) w := by
  refine sound_call fun e w₁ r w₂ hrely hi hx => ?_
  obtain ⟨hi', hrely'⟩ := step_mild hi hx hd hne hs
  exact ⟨hp w₁ hi, hi', fun j _ => hrely' j, hk r w₂⟩

/-! ### The programs -/

theorem sound_create (hash : String → String) (m : Manager) (accountID connectionID playerID : String) (now : Time) :
    Sound i (create hash m accountID connectionID now playerID) w := by
  refine call_randomID fun sid w₁ _ hsid => ?_
  cases sid with
  | error err => exact sound_ret _
  | ok sid =>
  obtain ⟨hid, hmine⟩ := hsid sid rfl
  refine call_randomID fun token w₂ hr _ => ?_
  cases token with
  | error err => exact sound_ret _
  | ok token =>
  refine call_create hid (hmine.rely hr) fun created w₃ => ?_
  cases created with
  | error err => exact sound_ret _
  | ok u =>
  refine sound_uses ⟨hid, fun claimed => ?_⟩
  cases claimed with
  | error err => trivial
  | ok claimed =>
    refine ⟨trivial, fun previousID => ?_⟩
    exact uses_preempt_emit (fun _ _ => trivial) (fun _ => trivial) (fun _ => trivial) ..

theorem sound_disconnect (m : Manager) (sessionID connectionID : String) (now : Time) (epoch : Nat) :
    Sound i (disconnect m sessionID connectionID now epoch) w := by
  refine call_plain trivial fun e w₁ expected w₂ _ hi hx _ => ?_
  cases expected with
  | error err => exact sound_ret _
  | ok expected =>
  have hid := Named.random_of_get hi.toInv hx
  by_cases hconn : connectionID ≠ "" ∧ expected.connectionID ≠ connectionID
  · show Sound i (if connectionID ≠ "" ∧ expected.connectionID ≠ connectionID then _ else _) w₂
    rw [if_pos hconn]
    exact sound_ret _
  show Sound i (if connectionID ≠ "" ∧ expected.connectionID ≠ connectionID then _ else _) w₂
  rw [if_neg hconn]
  by_cases hepoch : epoch ≠ 0 ∧ expected.connectionEpoch ≠ epoch
  · show Sound i (if epoch ≠ 0 ∧ expected.connectionEpoch ≠ epoch then _ else _) w₂
    rw [if_pos hepoch]
    exact sound_ret _
  show Sound i (if epoch ≠ 0 ∧ expected.connectionEpoch ≠ epoch then _ else _) w₂
  rw [if_neg hepoch]
  refine call_swap hid rfl fun swapped w₃ => ?_
  cases swapped with
  | error err => exact sound_ret _
  | ok swapped =>
  refine call_plain trivial fun _ _ released w₄ _ _ _ _ => ?_
  cases released with
  | error err => exact sound_ret _
  | ok u =>
  refine call_plain trivial fun _ _ _ w₅ _ _ _ _ => ?_
  refine call_plain trivial fun _ _ _ w₆ _ _ _ _ => ?_
  refine call_mild trivial nofun (fun r t h => ?_) (fun _ _ => trivial) fun _ _ => sound_ret _
  cases h
  exact hid

theorem sound_resume (hash : String → String) (m : Manager) (sessionID token connectionID : String) (now : Time) :
    Sound i (resume hash m sessionID token connectionID now) w := by
  refine call_plain trivial fun e w₁ expected w₂ _ hi hx _ => ?_
  cases expected with
  | error err => exact sound_ret _
  | ok expected =>
  have hid := Named.random_of_get hi.toInv hx
  by_cases hexpired : expected.expireAt ≤ now
  · show Sound i (if expected.expireAt ≤ now then _ else _) w₂
    rw [if_pos hexpired]
    exact call_swap hid rfl fun _ _ => sound_ret _
  show Sound i (if expected.expireAt ≤ now then _ else _) w₂
  rw [if_neg hexpired]
  by_cases htoken : hash token ≠ expected.resumeTokenHash
  · show Sound i (if hash token ≠ expected.resumeTokenHash then _ else _) w₂
    rw [if_pos htoken]
    exact sound_ret _
  show Sound i (if hash token ≠ expected.resumeTokenHash then _ else _) w₂
  rw [if_neg htoken]
  refine call_randomID fun next w₃ _ _ => ?_
  cases next with
  | error err => exact sound_ret _
  | ok next =>
  refine call_swap hid rfl fun swapped w₄ => ?_
  cases swapped with
  | error err => exact sound_ret _
  | ok swapped =>
  cases swapped with
  | false => exact sound_ret _
  | true =>
  refine sound_uses ⟨hid, fun claimed => ?_⟩
  cases claimed with
  | error err => trivial
  | ok claimed =>
    refine ⟨trivial, fun previousID => ?_⟩
    exact uses_preempt_emit (fun _ _ => trivial) (fun _ => trivial) (fun _ => trivial) ..

theorem random_of_fire {k : Nat} {r : Record} (h : Inv w) (hx : exec i e w (.fire k) = some (r, w')) :
    isRandomID r.sessionID = true := by
  rcases exec_cases hx with hx | ⟨⟨_, hfail⟩, -⟩
  · obtain ⟨t, ht, rfl⟩ := (fire_timers hx).1
    exact h.timers t ht
  · cases hfail

theorem sound_expire (k : Nat) : Sound i (expire k) w := by
  refine call_plain trivial fun e w₁ disconnected w₂ _ hi hx _ => ?_
  have hid := random_of_fire hi hx
  refine call_plain trivial fun _ _ now w₃ _ _ _ _ => ?_
  refine call_plain trivial fun _ _ found w₄ _ _ _ _ => ?_
  cases found with
  | error err =>
    show Sound i (if err.is errNotFound then _ else _) w₄
    split
    · exact call_plain trivial fun _ _ _ _ _ _ _ _ => sound_ret _
    · exact sound_ret _
  | ok record =>
    show Sound i (if _ then _ else _) w₄
    split
    · exact sound_ret _
    · refine call_mild trivial nofun nofun (fun _ _ => hid) fun deleted w₅ => ?_
      cases deleted with
      | error err => exact sound_ret _
      | ok u => exact sound_uses ⟨trivial, fun _ => ⟨trivial, fun _ => trivial⟩⟩

theorem sound_bindAndReply (connectionID : String) (reply : Except GoErr Created) : Sound i (bindAndReply connectionID reply) w := by
  cases reply with
  | error err => exact sound_ret _
  | ok created => exact call_plain trivial fun _ _ _ _ _ _ _ _ => sound_ret _

theorem sound_handler (hash : String → String) (call : Call) : Sound i (call.handler hash) w := by
  cases call with
  | create m accountID connectionID now playerID =>
    exact (sound_create hash m accountID connectionID playerID now).bind fun _ _ => sound_ret _
  | disconnect m sessionID connectionID now epoch =>
    exact (sound_disconnect m sessionID connectionID now epoch).bind fun _ _ => sound_ret _
  | resume m sessionID token connectionID now =>
    exact (sound_resume hash m sessionID token connectionID now).bind fun _ _ => sound_ret _
  | expire k => exact (sound_expire k).bind fun _ _ => sound_ret _
  | deliver g => exact call_plain trivial fun _ _ _ _ _ _ _ _ => sound_ret _
  | login m connectionID accountID playerID =>
    refine call_plain trivial fun _ _ now _ _ _ _ _ => ?_
    exact (sound_create hash m accountID connectionID playerID now).bind fun reply _ => sound_bindAndReply connectionID reply
  | resumeLogin m connectionID sessionID token =>
    show Sound i (if sessionID = "" ∨ token = "" then _ else _) w
    split
    · exact sound_ret _
    · refine call_plain trivial fun _ _ now _ _ _ _ _ => ?_
      exact (sound_resume hash m sessionID token connectionID now).bind fun reply _ => sound_bindAndReply connectionID reply

theorem inv_init (store : StoreKind) (gateways : Nat) (connections : AList fun _ : String => Connection) (clock : Time) :
    Inv (World.init store gateways connections clock) :=
  ⟨Named.inv_init store gateways connections clock, nofun, fun _ _ _ h => (nomatch h), fun _ h => (nomatch h)⟩

theorem proper_along (hash : String → String) (store : StoreKind) (gateways : Nat)
    (connections : AList fun _ : String => Connection) (clock : Time) (calls : List Call) (sched : List (Nat × Env)) :
    Pool.Along exec (Pool.Issues fun _ _ => Proper) (State.init hash (World.init store gateways connections clock) calls) sched := by
  have hrun : Pool.Along exec (Pool.Issues fun i e w c => (exec i e w c).isSome → Proper w c)
      (State.init hash (World.init store gateways connections clock) calls) sched := by
    refine Pool.safe_issues Rely.refl Rely.trans (inv_init store gateways connections clock) ?_ (Pool.along_any _ sched)
    exact Pool.forall_map fun _ call _ => sound_handler hash call True
  refine hrun.mono fun s a h c k hp => ?_
  have hproper := h c k hp
  -- only commands of which nothing is asked can be blocked
  cases c with
  | create _ | get _ | compareAndSwap _ _ | delete _ =>
    refine hproper ?_
    unfold exec
    simp only
    split <;> rfl
  | _ => trivial

end Issued

theorem twins_init (gateways : Nat) (connections : AList fun _ : String => Connection) (clock : Time) :
    Twins (World.init .memory gateways connections clock) (World.init .redis gateways connections clock) :=
  ⟨rfl, rfl, fun _ => rfl, fun _ => rfl⟩

/-- The managers' calls over the two stores: with a store that works and no TTL
that elapses, the calls get the same answers and leave the same sessions, in every
order of the map, exactly if every call finds the Redis store settled. -/
theorem stores_agree_iff (hash : String → String) (gateways : Nat) (connections : AList fun _ : String => Connection)
    (clock : Time) (calls : List Call) (sched : List (Nat × Env))
    (hlasting : Pool.Along exec (Pool.Issues fun _ => Lasting)
      (State.init hash (World.init .redis gateways connections clock) calls) sched) :
    Pool.Alongside exec exec (Pool.Together Agree) (State.init hash (World.init .memory gateways connections clock) calls)
        (State.init hash (World.init .redis gateways connections clock) calls) sched ↔
      Pool.Along exec (Pool.Issues fun _ _ => Settled)
        (State.init hash (World.init .redis gateways connections clock) calls) sched := by
  have hproper := Issued.proper_along hash .redis gateways connections clock calls sched
  have hregular : Pool.Along exec (Pool.Issues fun _ e w c => Lasting e w c ∧ Proper w c)
      (State.init hash (World.init .redis gateways connections clock) calls) sched :=
    (hlasting.and hproper).mono fun _ _ h c k hp => ⟨h.1 c k hp, h.2 c k hp⟩
  refine Pool.alongside_iff ?_ ?_ sched rfl (twins_init gateways connections clock) hregular
  · exact fun i e m r c h hp => agree_iff h hp.1 hp.2
  · exact fun i e m r c h hp hs => matches_exec h hp.1 hp.2 hs

def bothLogins : List (Nat × Env) :=
  [(0, { id := drawn1 }), (0, { id := drawn2 })] ++
    Pool.inOrder [0, 0, 0, 0] ++
  [(1, { id := drawn3 }), (1, { id := drawn4 })] ++
    Pool.inOrder [1, 1, 1, 1, 1, 1, 1]

theorem stores_agree_preemption :
    let calls : List Call :=
      [.create gateway1 "alice" "c1" 0 "player-1", .create gateway1 "alice" "c2" 0 "player-1",
        .disconnect gateway1 drawn1 "c1" 0 1,
        .disconnect gateway1 drawn3 "c2" 0 1]
    Pool.Alongside exec exec (Pool.Together Agree) (State.init id (World.init .memory 1 ∅ 0) calls)
      (State.init id (World.init .redis 1 ∅ 0) calls) (bothLogins ++ Pool.inOrder [2, 2, 2, 2, 2, 2, 3, 3, 3, 3, 3, 3]) :=
  (stores_agree_iff id 1 ∅ 0 _ _ (by decide +kernel)).mpr (by decide +kernel)

theorem resume_finds_itself :
    let calls : List Call :=
      [.create gateway1 "alice" "c1" 0 "player-1",
        .resume gateway1 drawn1 drawn2 "c2" 0]
    let created : Record :=
      { sessionID := drawn1, accountID := "alice", playerID := "player-1"
        gatewayInstanceID := "gateway-1", connectionID := "c1", connectionEpoch := 1, state := .authenticated
        resumeTokenHash := drawn2, expireAt := 3600000000000 }
    let resumed : Record :=
      { created with connectionID := "c2", connectionEpoch := 2, resumeTokenHash := drawn3 }
    let sched := bothLogins.take 6 ++ Pool.inOrder [1] ++ [(1, { id := drawn3 })] ++ Pool.inOrder [1]
    let m := Pool.run exec (State.init id (World.init .memory 1 ∅ 0) calls) sched
    let r := Pool.run exec (State.init id (World.init .redis 1 ∅ 0) calls) sched
    Pool.Along exec (Pool.Issues fun _ => Lasting) (State.init id (World.init .redis 1 ∅ 0) calls)
        (sched ++ Pool.inOrder [1]) ∧
      m.procs[1]?.bind Prog.next? = some (.claimAccount "alice" resumed) ∧
      r.procs[1]?.bind Prog.next? = some (.claimAccount "alice" resumed) ∧
      (exec 1 {} m.world (.claimAccount "alice" resumed)).map (·.1) = some (.ok none) ∧
      (exec 1 {} r.world (.claimAccount "alice" resumed)).map (·.1) = some (.ok (some created)) := by
  decide +kernel

end GameServer.Gateway
