import GameServer.Session

/-!
# What the session commands do to the store

One lemma per command, for a store of either kind and whether or not the call
fails: which sessions it can add, drop or move to another epoch.
-/

namespace GameServer.Gateway

/-! ## What is kept under a key -/

def World.kept (w : World) (k : Key) : Option Record := (w.data.lookup k).map (·.record)

variable {w w' : World} {r : Record} {e : Env} {i : Nat} {c : Cmd}

theorem kept_of_lookup {k : Key} (h : w.lookup k = some r) : w.kept k = some r := by
  unfold World.lookup at h
  unfold World.kept
  split at h
  · cases h
  · rename_i entry hentry
    split at h
    · cases h
    · rw [hentry, Option.map_some, h]

theorem kept_of_data (h : w'.data = w.data) (k : Key) : w'.kept k = w.kept k := by
  rw [World.kept, h, World.kept]

theorem kept_put {k k' : Key} {d : Time} :
    (w.put k r d).kept k' = if k' = k then some r else w.kept k' := by
  unfold World.kept World.put
  split
  · rename_i h
    rw [h, AList.lookup_insert, Option.map_some]
  · rename_i h
    rw [AList.lookup_insert_ne h]

theorem kept_delete {id : String} {k : Key} : (w.delete id).kept k = if k = w.key id then none else w.kept k := by
  unfold World.kept World.delete
  by_cases hk : k = w.key id
  · subst hk
    simp [AList.lookup_erase]
  · simp [hk, AList.lookup_erase_ne hk]

theorem session_ne_account (sid accountID : String) : Key.session sid ≠ .account accountID := by simp

theorem lookup_put_self {k : Key} {d : Time} (h : w.store = .redis → w.clock < d) :
    (w.put k r d).lookup k = some r := by
  unfold World.lookup World.put
  simp only [AList.lookup_insert]
  split
  · rename_i hgone
    exact absurd hgone.2 (Nat.not_le.mpr (h hgone.1))
  · rfl

theorem lookup_of_later {k : Key} {t : Nat} (h : World.lookup { w with clock := w.clock + t } k = some r) :
    w.lookup k = some r := by
  unfold World.lookup at h ⊢
  split at h
  · cases h
  · rename_i entry hentry
    rw [hentry]
    simp only at h ⊢
    split at h
    · cases h
    · rename_i hkept
      rw [if_neg fun hgone => hkept ⟨hgone.1, Nat.le_add_right_of_le hgone.2⟩]
      exact h

theorem key_of_isRandomID {id : String} (h : isRandomID id = true) : w.key id = .session id := by
  unfold World.key
  split
  · rename_i hacc
    exfalso
    have hmem : 'o' ∈ id.toList := List.mem_of_mem_take (by rw [hacc.2]; decide)
    simp only [isRandomID, Bool.and_eq_true, List.all_eq_true] at h
    exact absurd (h.2 'o' hmem) (by decide)
  · rfl

/-! ## What the commands do to the sessions -/

structure SameEpoch (r r' : Record) : Prop where
  sessionID : r'.sessionID = r.sessionID
  connectionEpoch : r'.connectionEpoch = r.connectionEpoch
  resumeTokenHash : r'.resumeTokenHash = r.resumeTokenHash

theorem SameEpoch.refl (r : Record) : SameEpoch r r := ⟨rfl, rfl, rfl⟩

structure Keeps (w w' : World) : Prop where
  session : ∀ sid r', w'.kept (.session sid) = some r' → ∃ r, w.kept (.session sid) = some r ∧ SameEpoch r r'
  account : ∀ acc r', w'.kept (.account acc) = some r' →
    isRandomID r'.sessionID = true ∨ ∃ r, w.kept (.account acc) = some r ∧ r'.sessionID = r.sessionID
  issued : w'.issued = w.issued

structure Retains (w w' : World) : Prop extends Keeps w w' where
  still : ∀ sid r, w.kept (.session sid) = some r →
    ∃ r', w'.kept (.session sid) = some r' ∧ SameEpoch r r' ∧ r'.connectionID = r.connectionID

theorem Retains.of_data (hdata : w'.data = w.data) (hissued : w'.issued = w.issued) : Retains w w' where
  session _ r' h := ⟨r', kept_of_data hdata _ ▸ h, .refl r'⟩
  account _ r' h := .inr ⟨r', kept_of_data hdata _ ▸ h, rfl⟩
  issued := hissued
  still _ r h := ⟨r, (kept_of_data hdata _).trans h, .refl r, rfl⟩

theorem Retains.tick (w : World) (t : Nat) : Retains w { w with clock := w.clock + t } := .of_data rfl rfl

theorem preempt_eq (w : World) (g : Nat) (n : Notice) :
    ∃ connections, w.preempt g n = { w with connections } := by
  unfold World.preempt
  split
  · exact ⟨_, rfl⟩
  · split
    · exact ⟨_, rfl⟩
    · split <;> exact ⟨_, rfl⟩

theorem bindSession_eq (w : World) (connectionID sessionID : String) (epoch : Nat) :
    ∃ connections, w.bindSession connectionID sessionID epoch = { w with connections } := by
  unfold World.bindSession
  split <;> exact ⟨_, rfl⟩

theorem deliver_eq {g : Nat} (h : w.deliver g = some w') :
    ∃ inbox connections, w' = { w with inbox, connections } := by
  unfold World.deliver at h
  split at h
  · cases h
  · rename_i n rest _
    obtain ⟨connections, hp⟩ := preempt_eq { w with inbox := Function.update w.inbox g rest } g n
    rw [hp] at h
    cases h
    exact ⟨_, connections, rfl⟩

theorem fire_eq {k : Nat} (h : w.fire k = some (r, w')) :
    ∃ timers, w' = { w with timers } := by
  unfold World.fire at h
  split at h
  · cases h
  · split at h
    · cases h
    · cases h
      exact ⟨_, rfl⟩

theorem claimAccount_eq {accountID : String} {previous : Option Record}
    (h : w.claimAccount e accountID r = .ok (previous, w')) : w' = w ∨ ∃ d, w' = w.put (.account accountID) r d := by
  unfold World.claimAccount at h
  split at h
  · cases h
    exact .inl rfl
  · split at h
    · cases h
    · split at h
      · cases h
      · cases h
        exact .inr ⟨_, rfl⟩

theorem answer_claimAccount {accountID : String} {rec : Record} {r : Ans (.claimAccount accountID rec)}
    (h : w.answer i e (.claimAccount accountID rec) = some (r, w')) :
    w' = w ∨ ∃ d, w' = w.put (.account accountID) rec d := by
  simp only [World.answer, Option.some.injEq] at h
  cases hclaim : w.claimAccount e accountID rec with
  | error err =>
    rw [hclaim] at h
    cases h
    exact .inl rfl
  | ok p =>
    rw [hclaim] at h
    cases h
    exact claimAccount_eq hclaim

def Quiet : Cmd → Prop
  | .randomID | .create _ | .compareAndSwap _ _ | .delete _ | .releaseAccount _ _ => False
  | .claimAccount _ r => isRandomID r.sessionID = true
  | _ => True

theorem Retains.put_account {acc : String} {d : Time} (hr : isRandomID r.sessionID = true) :
    Retains w (w.put (.account acc) r d) where
  session sid r' h := by
    rw [kept_put, if_neg (session_ne_account sid acc)] at h
    exact ⟨r', h, .refl r'⟩
  account acc' r' h := by
    rw [kept_put] at h
    split at h
    · cases h
      exact .inl hr
    · exact .inr ⟨r', h, rfl⟩
  issued := rfl
  still sid r' h := ⟨r', by rwa [kept_put, if_neg (session_ne_account sid acc)], .refl r', rfl⟩

theorem retains_answer {r : Ans c} (hc : Quiet c) (h : w.answer i e c = some (r, w')) : Retains w w' := by
  cases c with
  | claimAccount accountID rec =>
    rcases answer_claimAccount h with rfl | ⟨d, rfl⟩
    · exact .of_data rfl rfl
    · exact .put_account hc
  | deliver g =>
    obtain ⟨w₁, hw₁, heq⟩ := Option.map_eq_some_iff.mp h
    cases heq
    obtain ⟨_, _, rfl⟩ := deliver_eq hw₁
    exact .of_data rfl rfl
  | fire k =>
    obtain ⟨_, rfl⟩ := fire_eq h
    exact .of_data rfl rfl
  | preempt g n =>
    cases h
    obtain ⟨_, heq⟩ := preempt_eq w g n
    rw [heq]
    exact .of_data rfl rfl
  | bindSession connectionID sessionID epoch =>
    cases h
    obtain ⟨_, heq⟩ := bindSession_eq w connectionID sessionID epoch
    rw [heq]
    exact .of_data rfl rfl
  | randomID | create _ | compareAndSwap _ _ | delete _ | releaseAccount _ _ => exact hc.elim
  | now | get _ | enter _ _ _ _ | leave _ _ _ | emit _ | publish _ | schedule _ _ =>
    cases h
    exact .of_data rfl rfl

theorem exec_cases {r : Ans c} (h : exec i e w c = some (r, w')) :
    World.answer { w with clock := w.clock + e.delay } i e c = some (r, w') ∨
      ((∃ text, failed text c = some r) ∧ w' = { w with clock := w.clock + e.delay }) := by
  unfold exec at h
  simp only at h
  split at h
  · exact .inl h
  · rename_i text _
    obtain ⟨_, hr, heq⟩ := Option.map_eq_some_iff.mp h
    cases heq
    exact .inr ⟨⟨text, hr⟩, rfl⟩

theorem Keeps.of_tick {t : Nat} (h : Keeps { w with clock := w.clock + t } w') : Keeps w w' :=
  ⟨h.session, h.account, h.issued⟩

theorem Retains.of_tick {t : Nat} (h : Retains { w with clock := w.clock + t } w') : Retains w w' :=
  ⟨h.toKeeps.of_tick, h.still⟩

theorem retains_quiet {r : Ans c} (hc : Quiet c) (h : exec i e w c = some (r, w')) : Retains w w' := by
  rcases exec_cases h with h | ⟨-, rfl⟩
  · exact (retains_answer hc h).of_tick
  · exact .of_data rfl rfl

theorem keeps_delete {id : String} {r : Except GoErr Unit} (h : exec i e w (.delete id) = some (r, w')) :
    Keeps w w' := by
  rcases exec_cases h with h | ⟨-, rfl⟩
  · cases h
    have hkept : ∀ k r', World.kept (World.delete { w with clock := w.clock + e.delay } id) k = some r' →
        w.kept k = some r' := by
      intro k r' h
      unfold World.kept World.delete at h
      by_cases hk : k = World.key { w with clock := w.clock + e.delay } id
      · rw [hk, AList.lookup_erase] at h
        cases h
      · rwa [AList.lookup_erase_ne hk] at h
    exact ⟨fun sid r' h => ⟨r', hkept _ _ h, .refl r'⟩, fun acc r' h => .inr ⟨r', hkept _ _ h, rfl⟩, rfl⟩
  · exact (Retains.tick w e.delay).toKeeps

theorem kept_releaseAccount {accountID connectionID : String} {k : Key} {r' : Record}
    (h : (w.releaseAccount accountID connectionID).kept k = some r') :
    ∃ r, w.kept k = some r ∧ (r' = r ∨ r' = { r with connectionID := "" }) := by
  unfold World.releaseAccount at h
  split at h
  · unfold World.kept at h
    simp only [lookup_mapAll, Option.map_map, Option.map_eq_some_iff] at h
    obtain ⟨entry, hentry, heq⟩ := h
    refine ⟨entry.record, by rw [World.kept, hentry, Option.map_some], ?_⟩
    simp only [Function.comp] at heq
    rw [← heq]
    split
    · exact .inr rfl
    · exact .inl rfl
  · split at h
    · exact ⟨r', h, .inl rfl⟩
    · split at h
      · unfold World.kept at h
        by_cases hk : k = .account accountID
        · rw [hk, AList.lookup_erase] at h
          cases h
        · rw [AList.lookup_erase_ne hk] at h
          exact ⟨r', h, .inl rfl⟩
      · exact ⟨r', h, .inl rfl⟩

theorem sameEpoch_releaseAccount {accountID connectionID : String} {k : Key} {r' : Record}
    (h : (w.releaseAccount accountID connectionID).kept k = some r') : ∃ r, w.kept k = some r ∧ SameEpoch r r' := by
  obtain ⟨r, hr, rfl | rfl⟩ := kept_releaseAccount h
  · exact ⟨_, hr, .refl _⟩
  · exact ⟨r, hr, rfl, rfl, rfl⟩

theorem issued_releaseAccount (w : World) (accountID connectionID : String) :
    (w.releaseAccount accountID connectionID).issued = w.issued := by
  unfold World.releaseAccount
  split
  · rfl
  · split
    · rfl
    · split <;> rfl

theorem keeps_releaseAccount {accountID connectionID : String} {r : Except GoErr Unit}
    (h : exec i e w (.releaseAccount accountID connectionID) = some (r, w')) : Keeps w w' := by
  rcases exec_cases h with h | ⟨-, rfl⟩
  · cases h
    refine Keeps.of_tick ⟨fun sid r' h => sameEpoch_releaseAccount h, fun acc r' h => ?_, issued_releaseAccount _ _ _⟩
    obtain ⟨r, hr, hsame⟩ := sameEpoch_releaseAccount h
    exact .inr ⟨r, hr, hsame.sessionID⟩
  · exact (Retains.tick w e.delay).toKeeps

theorem compareAndSwap_cases {expected updated : Record} {r : Except GoErr Bool}
    (hid : isRandomID updated.sessionID = true) (hsid : expected.sessionID = updated.sessionID)
    (h : commitWith w (w.compareAndSwap e expected updated) = (r, w')) :
    (w' = w ∧ r ≠ .ok true) ∨
      (r = .ok true ∧ w.lookup (.session updated.sessionID) = some expected ∧
        ∃ d, (w.store = .redis → w.clock < d) ∧ w' = w.put (.session updated.sessionID) updated d) := by
  unfold World.compareAndSwap at h
  rw [key_of_isRandomID hid, hsid] at h
  split at h
  · rename_i hstore
    split at h
    · cases h
      exact .inl ⟨rfl, nofun⟩
    · rename_i current hcurrent
      split at h
      · rename_i heq
        cases h
        exact .inr ⟨rfl, heq ▸ hcurrent, 0, fun hs => (nomatch hstore.symm.trans hs), rfl⟩
      · cases h
        exact .inl ⟨rfl, nofun⟩
  · split at h
    · cases h
      exact .inl ⟨rfl, nofun⟩
    · split at h
      · cases h
        exact .inl ⟨rfl, nofun⟩
      · rename_i hcurrent
        split at h
        · cases h
          exact .inl ⟨rfl, nofun⟩
        · rename_i hpx
          cases h
          refine .inr ⟨rfl, not_not.mp hcurrent, _, fun _ => ?_, rfl⟩
          exact Nat.lt_add_of_pos_right (Nat.mul_pos (Nat.pos_of_ne_zero hpx) (by decide))

theorem exec_compareAndSwap {expected updated : Record} {r : Except GoErr Bool}
    (h : exec i e w (.compareAndSwap expected updated) = some (r, w')) (hid : isRandomID updated.sessionID = true)
    (hsid : expected.sessionID = updated.sessionID) :
    (w' = { w with clock := w.clock + e.delay } ∧ r ≠ .ok true) ∨
      (r = .ok true ∧ w.lookup (.session updated.sessionID) = some expected ∧
        w'.lookup (.session updated.sessionID) = some updated ∧
        ∃ d, w' = World.put { w with clock := w.clock + e.delay } (.session updated.sessionID) updated d) := by
  rcases exec_cases h with h | ⟨⟨text, htext⟩, rfl⟩
  · simp only [World.answer, Option.some.injEq] at h
    rcases compareAndSwap_cases hid hsid h with h | ⟨hr, hold, d, hd, rfl⟩
    · exact .inl h
    · exact .inr ⟨hr, lookup_of_later hold, lookup_put_self hd, d, rfl⟩
  · cases htext
    exact .inl ⟨rfl, nofun⟩

theorem Keeps.put_session {r' : Record} {d : Time} {t : Nat} (hr : w.kept (.session r'.sessionID) = some r)
    (hsame : SameEpoch r r') :
    Keeps w (World.put { w with clock := w.clock + t } (.session r'.sessionID) r' d) where
  session sid r₁ h := by
    rw [kept_put] at h
    split at h
    · rename_i heq
      cases heq
      cases h
      exact ⟨r, hr, hsame⟩
    · exact ⟨r₁, h, .refl r₁⟩
  account acc r₁ h := by
    rw [kept_put, if_neg (session_ne_account _ acc).symm] at h
    exact .inr ⟨r₁, h, rfl⟩
  issued := rfl

theorem keeps_compareAndSwap {expected updated : Record} {r : Except GoErr Bool}
    (h : exec i e w (.compareAndSwap expected updated) = some (r, w')) (hid : isRandomID updated.sessionID = true)
    (hsame : SameEpoch expected updated) : Keeps w w' := by
  rcases exec_compareAndSwap h hid hsame.sessionID.symm with ⟨rfl, -⟩ | ⟨-, hold, -, d, rfl⟩
  · exact (Retains.tick w e.delay).toKeeps
  · exact .put_session (kept_of_lookup hold) hsame

theorem retains_compareAndSwap {expected updated : Record} {r : Except GoErr Bool}
    (h : exec i e w (.compareAndSwap expected updated) = some (r, w')) (hid : isRandomID updated.sessionID = true)
    (hsame : SameEpoch expected updated) (hconn : updated.connectionID = expected.connectionID) : Retains w w' := by
  rcases exec_compareAndSwap h hid hsame.sessionID.symm with ⟨rfl, -⟩ | ⟨-, hold, -, d, rfl⟩
  · exact .tick w e.delay
  · have hkept := kept_of_lookup hold
    refine ⟨.put_session hkept hsame, fun sid r hr => ?_⟩
    rw [kept_put]
    split
    · rename_i heq
      cases heq
      cases hkept.symm.trans hr
      exact ⟨updated, rfl, hsame, hconn⟩
    · exact ⟨r, hr, .refl r, rfl⟩

theorem exec_create {rec : Record} {r : Except GoErr Unit} (h : exec i e w (.create rec) = some (r, w'))
    (hid : isRandomID rec.sessionID = true) :
    (w' = { w with clock := w.clock + e.delay } ∧ r ≠ .ok ()) ∨
      (r = .ok () ∧ ∃ d, w' = World.put { w with clock := w.clock + e.delay } (.session rec.sessionID) rec d) := by
  rcases exec_cases h with h | ⟨⟨text, htext⟩, rfl⟩
  · simp only [World.answer, Option.some.injEq, World.create, key_of_isRandomID hid] at h
    split at h
    · split at h
      · cases h
        exact .inl ⟨rfl, nofun⟩
      · cases h
        exact .inr ⟨rfl, 0, rfl⟩
    · split at h
      · cases h
        exact .inl ⟨rfl, nofun⟩
      · split at h
        · cases h
          exact .inl ⟨rfl, nofun⟩
        · cases h
          exact .inr ⟨rfl, _, rfl⟩
  · cases htext
    exact .inl ⟨rfl, nofun⟩

theorem exec_randomID {r : Except GoErr String} (h : exec i e w .randomID = some (r, w')) :
    (w' = { w with clock := w.clock + e.delay } ∧ ∀ id, r ≠ .ok id) ∨
      ∃ id, r = .ok id ∧ isRandomID id = true ∧ id ∉ w.issued.map (·.1) ∧ w'.data = w.data ∧
        w'.issued = (id, i) :: w.issued := by
  rcases exec_cases h with h | ⟨⟨text, htext⟩, rfl⟩
  · simp only [World.answer] at h
    split at h
    · rename_i hid
      cases h
      exact .inr ⟨e.id, rfl, hid.1, hid.2, rfl, rfl⟩
    · cases h
  · cases htext
    exact .inl ⟨rfl, fun _ => nofun⟩

theorem isRandomID_of_exec {id : String} (h : exec i e w .randomID = some (.ok id, w')) : isRandomID id = true := by
  rcases exec_randomID h with ⟨-, hne⟩ | ⟨_, hid, hrandom, -⟩
  · exact absurd rfl (hne id)
  · cases hid
    exact hrandom

theorem exec_get {id : String} (h : exec i e w (.get id) = some (.ok r, w')) :
    w' = { w with clock := w.clock + e.delay } ∧ w.lookup (w.key id) = some r := by
  rcases exec_cases h with h | ⟨⟨text, htext⟩, rfl⟩
  · simp only [World.answer, World.get, Option.some.injEq, Prod.mk.injEq] at h
    refine ⟨h.2.symm, ?_⟩
    split at h
    · rename_i hr
      cases h.1
      exact lookup_of_later hr
    · cases h.1
  · cases htext

theorem uses_preemptPrevious {P : Cmd → Prop} (hpreempt : ∀ g n, P (.preempt g n)) (hpublish : ∀ n, P (.publish n))
    (hemit : ∀ event, P (.emit event)) (m : Manager) (previous : Option Record) (connectionID : String) (now : Time) :
    (preemptPrevious m previous connectionID now).Uses P := by
  unfold preemptPrevious
  split
  · trivial
  · split
    · exact ⟨hpreempt _ _, fun _ => ⟨hpublish _, fun _ => ⟨hemit _, fun _ => trivial⟩⟩⟩
    · trivial

theorem uses_preempt_emit {α : Type} {P : Cmd → Prop} (hpreempt : ∀ g n, P (.preempt g n)) (hpublish : ∀ n, P (.publish n))
    (hemit : ∀ event, P (.emit event)) (m : Manager) (previous : Option Record) (connectionID : String) (now : Time)
    (type : LifecycleType) (r : Record) (a : α) :
    (preemptPrevious m previous connectionID now >>= fun _ => emitLifecycle type r now >>= fun _ => pure a).Uses P :=
  (uses_preemptPrevious hpreempt hpublish hemit m previous connectionID now).bind fun _ => ⟨hemit _, fun _ => trivial⟩

/-! ## Stores that work, and in which nothing runs out -/

theorem key_memory (h : w.store = .memory) (id : String) : w.key id = .session id := by
  simp [World.key, h]

theorem data_create {rec : Record} {r : Except GoErr Unit} (h : exec i e w (.create rec) = some (r, w')) :
    (r ≠ .ok () ∧ w'.data = w.data) ∨ (r = .ok () ∧ ∃ d, w'.data = w.data.insert (w.key rec.sessionID) ⟨rec, d⟩) := by
  rcases exec_cases h with h | ⟨⟨text, htext⟩, rfl⟩
  · simp only [World.answer, Option.some.injEq, World.create] at h
    split at h
    · rename_i hmemory
      split at h
      · cases h
        exact .inl ⟨nofun, rfl⟩
      · cases h
        rw [key_memory hmemory]
        exact .inr ⟨rfl, 0, rfl⟩
    · split at h
      · cases h
        exact .inl ⟨nofun, rfl⟩
      · split at h
        · cases h
          exact .inl ⟨nofun, rfl⟩
        · cases h
          exact .inr ⟨rfl, _, rfl⟩
  · cases htext
    exact .inl ⟨nofun, rfl⟩

theorem data_compareAndSwap {expected updated : Record} {r : Except GoErr Bool}
    (h : exec i e w (.compareAndSwap expected updated) = some (r, w')) :
    (r ≠ .ok true ∧ w'.data = w.data) ∨
      (r = .ok true ∧ ∃ d, w'.data = w.data.insert (w.key updated.sessionID) ⟨updated, d⟩) := by
  rcases exec_cases h with h | ⟨⟨text, htext⟩, rfl⟩
  · simp only [World.answer, Option.some.injEq, World.compareAndSwap] at h
    split at h
    · rename_i hmemory
      split at h
      · cases h
        exact .inl ⟨nofun, rfl⟩
      · split at h
        · cases h
          rw [key_memory hmemory]
          exact .inr ⟨rfl, 0, rfl⟩
        · cases h
          exact .inl ⟨nofun, rfl⟩
    · split at h
      · cases h
        exact .inl ⟨nofun, rfl⟩
      split at h
      · cases h
        exact .inl ⟨nofun, rfl⟩
      split at h
      · cases h
        exact .inl ⟨nofun, rfl⟩
      · cases h
        exact .inr ⟨rfl, _, rfl⟩
  · cases htext
    exact .inl ⟨nofun, rfl⟩

def Aside : Cmd → Prop
  | .create _ | .get _ | .compareAndSwap _ _ | .delete _ | .claimAccount _ _ | .releaseAccount _ _ => False
  | _ => True

theorem releaseAccount_eq (w : World) (accountID connectionID : String) :
    w.releaseAccount accountID connectionID = { w with data := (w.releaseAccount accountID connectionID).data } := by
  unfold World.releaseAccount
  split
  · rfl
  · split
    · rfl
    · split <;> rfl

theorem answer_store {r : Ans c} (hc : ¬ Aside c) (h : w.answer i e c = some (r, w')) :
    ∃ data, w' = { w with data } := by
  cases c with
  | get _ | delete _ =>
    cases h
    exact ⟨_, rfl⟩
  | releaseAccount accountID connectionID =>
    cases h
    exact ⟨_, releaseAccount_eq w accountID connectionID⟩
  | create rec =>
    simp only [World.answer, Option.some.injEq] at h
    cases hcreate : w.create e rec with
    | error err =>
      rw [hcreate] at h
      cases h
      exact ⟨_, rfl⟩
    | ok w₁ =>
      rw [hcreate] at h
      cases h
      unfold World.create at hcreate
      split at hcreate <;> split_ifs at hcreate <;> cases hcreate <;> exact ⟨_, rfl⟩
  | compareAndSwap expected updated =>
    simp only [World.answer, Option.some.injEq] at h
    cases hswap : w.compareAndSwap e expected updated with
    | error err =>
      rw [hswap] at h
      cases h
      exact ⟨_, rfl⟩
    | ok p =>
      rw [hswap] at h
      cases h
      unfold World.compareAndSwap at hswap
      split at hswap
      · split at hswap <;> try split_ifs at hswap
        all_goals cases hswap
        all_goals exact ⟨_, rfl⟩
      · split_ifs at hswap <;> cases hswap <;> exact ⟨_, rfl⟩
  | claimAccount accountID rec => rcases answer_claimAccount h with rfl | ⟨d, rfl⟩ <;> exact ⟨_, rfl⟩
  | _ => exact absurd trivial hc

structure Beside (c : Cmd) (w w' : World) : Prop where
  store : w'.store = w.store
  issued : c ≠ .randomID → w'.issued = w.issued
  timers : ∀ t ∈ w'.timers, (∃ expiresAt, c = .schedule t.disconnected expiresAt) ∨ ∃ t' ∈ w.timers, t'.disconnected = t.disconnected

theorem Beside.of_eq (hstore : w'.store = w.store) (hissued : w'.issued = w.issued) (htimers : w'.timers = w.timers) :
    Beside c w w' :=
  ⟨hstore, fun _ => hissued, fun t ht => .inr ⟨t, htimers ▸ ht, rfl⟩⟩

theorem fire_timers {k : Nat} (h : w.fire k = some (r, w')) :
    (∃ t ∈ w.timers, t.disconnected = r) ∧ ∀ t ∈ w'.timers, ∃ t' ∈ w.timers, t'.disconnected = t.disconnected := by
  unfold World.fire at h
  split at h
  · cases h
  · rename_i t₀ ht₀
    have hmem := List.mem_of_getElem? ht₀
    split at h
    · cases h
    · cases h
      refine ⟨⟨t₀, hmem, rfl⟩, fun t ht => ?_⟩
      rcases List.mem_or_eq_of_mem_set ht with ht | rfl
      · exact ⟨t, ht, rfl⟩
      · exact ⟨t₀, hmem, rfl⟩

theorem beside_answer {r : Ans c} (h : w.answer i e c = some (r, w')) :
    w'.clock = w.clock ∧ Beside c w w' := by
  by_cases hc : Aside c
  · cases c with
    | create _ | get _ | compareAndSwap _ _ | delete _ | claimAccount _ _ | releaseAccount _ _ => exact hc.elim
    | now | enter _ _ _ _ | leave _ _ _ | emit _ | publish _ =>
      cases h
      exact ⟨rfl, .of_eq rfl rfl rfl⟩
    | randomID =>
      simp only [World.answer] at h
      split at h <;> cases h
      exact ⟨rfl, rfl, fun hne => absurd rfl hne, fun t ht => .inr ⟨t, ht, rfl⟩⟩
    | schedule disconnected expiresAt =>
      cases h
      refine ⟨rfl, rfl, fun _ => rfl, fun t ht => ?_⟩
      rcases List.mem_append.mp ht with ht | ht
      · exact .inr ⟨t, ht, rfl⟩
      · rw [List.mem_singleton.mp ht]
        exact .inl ⟨expiresAt, rfl⟩
    | deliver g =>
      obtain ⟨w₁, hw₁, heq⟩ := Option.map_eq_some_iff.mp h
      cases heq
      obtain ⟨_, _, rfl⟩ := deliver_eq hw₁
      exact ⟨rfl, .of_eq rfl rfl rfl⟩
    | fire k =>
      have htimers := (fire_timers h).2
      obtain ⟨_, rfl⟩ := fire_eq h
      exact ⟨rfl, rfl, fun _ => rfl, fun t ht => .inr (htimers t ht)⟩
    | preempt g n =>
      cases h
      obtain ⟨_, heq⟩ := preempt_eq w g n
      rw [heq]
      exact ⟨rfl, .of_eq rfl rfl rfl⟩
    | bindSession connectionID sessionID epoch =>
      cases h
      obtain ⟨_, heq⟩ := bindSession_eq w connectionID sessionID epoch
      rw [heq]
      exact ⟨rfl, .of_eq rfl rfl rfl⟩
  · obtain ⟨_, rfl⟩ := answer_store hc h
    exact ⟨rfl, .of_eq rfl rfl rfl⟩

theorem beside_exec {r : Ans c} (h : exec i e w c = some (r, w')) :
    w'.clock = w.clock + e.delay ∧ Beside c w w' := by
  rcases exec_cases h with h | ⟨-, rfl⟩
  · obtain ⟨hclock, hstore, hissued, htimers⟩ := beside_answer h
    exact ⟨hclock, hstore, hissued, htimers⟩
  · exact ⟨rfl, .of_eq rfl rfl rfl⟩

def World.InTime (w : World) : Prop :=
  ∀ k entry, w.data.lookup k = some entry →
    w.clock < entry.record.expireAt ∧ (w.store = .redis → w.clock < entry.deadline)

/-- The store works, and no TTL elapses: nothing that is stored has run out, nor
has, to the millisecond, what is about to be stored. -/
structure Healthy (e : Env) (w : World) (c : Cmd) : Prop where
  works : e.fail = none
  inTime : World.InTime { w with clock := w.clock + e.delay }
  ttl : ∀ r, (c = .create r ∨ (∃ expected, c = .compareAndSwap expected r) ∨ ∃ accountID, c = .claimAccount accountID r) →
    w.store = .redis → millisecond ≤ World.ttl { w with clock := w.clock + e.delay } e r

instance (w : World) : Decidable w.InTime :=
  decidable_of_iff (∀ x ∈ w.data.entries, w.clock < x.2.record.expireAt ∧ (w.store = .redis → w.clock < x.2.deadline))
    ⟨fun h k entry hentry => h ⟨k, entry⟩ (AList.mem_lookup_iff.mp hentry),
      fun h x hx => h x.1 x.2 (AList.mem_lookup_iff.mpr hx)⟩

def Cmd.stores? : Cmd → Option Record
  | .create r | .compareAndSwap _ r | .claimAccount _ r => some r
  | _ => none

theorem Cmd.stores?_iff :
    c.stores? = some r ↔ c = .create r ∨ (∃ expected, c = .compareAndSwap expected r) ∨ ∃ accountID, c = .claimAccount accountID r := by
  cases c <;> simp [Cmd.stores?]

instance (e : Env) (w : World) (c : Cmd) : Decidable (Healthy e w c) :=
  decidable_of_iff (e.fail = none ∧ World.InTime { w with clock := w.clock + e.delay } ∧
      ∀ r ∈ c.stores?, w.store = .redis → millisecond ≤ World.ttl { w with clock := w.clock + e.delay } e r)
    ⟨fun h => ⟨h.1, h.2.1, fun r hr => h.2.2 r (Cmd.stores?_iff.mpr hr)⟩,
      fun h => ⟨h.works, h.inTime, fun r hr => h.ttl r (Cmd.stores?_iff.mp hr)⟩⟩

theorem World.InTime.lookup_eq (h : w.InTime) (k : Key) : w.lookup k = w.kept k := by
  unfold World.lookup World.kept
  cases hentry : w.data.lookup k with
  | none => rfl
  | some entry =>
    have hlt := (h k entry hentry).2
    exact if_neg fun hgone => Nat.not_le.mpr (hlt hgone.1) hgone.2

theorem Healthy.exec_eq (h : Healthy e w c) :
    exec i e w c = World.answer { w with clock := w.clock + e.delay } i e c := by
  unfold exec
  rw [h.works]

/-! ## For the runs that the theorems are applied to -/

abbrev drawn1 : String := "00000000000000000000000000000001"

abbrev drawn2 : String := "00000000000000000000000000000002"

abbrev drawn3 : String := "00000000000000000000000000000003"

abbrev drawn4 : String := "00000000000000000000000000000004"

abbrev drawn5 : String := "00000000000000000000000000000005"

/-- A gateway with sessions of an hour and a grace period of half a minute. -/
def gateway1 : Manager := ⟨0, "gateway-1", 3600000000000, 30000000000⟩

def gateway2 : Manager := { gateway1 with index := 1, gatewayID := "gateway-2" }

end GameServer.Gateway
