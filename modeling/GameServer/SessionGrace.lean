import GameServer.SessionExec
import GameServer.Total

/-!
# Resume within the grace period, in Redis

The TTL of a session is set when the session is created or resumed and counted
in whole milliseconds; nothing renews it while the connection is open. A
disconnect replaces it by the grace period, if the session is still there.
Calls take no time here: each command of a call is executed when it is made.
-/

namespace GameServer.Gateway

/-- The command is executed at `t` and succeeds at once. -/
def Instant (t : Time) (e : Env) (w : World) : Prop := e.fail = none ∧ e.lag = 0 ∧ w.clock + e.delay = t

def whole (duration : Nat) : Nat := duration / millisecond * millisecond

inductive Opens (hash : String → String) (m : Manager) (t : Time) : Prog Ans (Except GoErr Created) → Prop
  | create (accountID connectionID playerID : String) : Opens hash m t (create hash m accountID connectionID t playerID)
  | resume (sessionID token connectionID : String) : Opens hash m t (resume hash m sessionID token connectionID t)

/-- The connection of `c` disconnects at time `t`, and then a resume through the
manager `m'` succeeds at any time within the grace period. -/
def Reconnects (hash : String → String) (m m' : Manager) (c : Created) (connectionID : String) (t : Time) (w : World) :
    Prop :=
  Pool.Total exec (Instant t) Eq 0
    (fun w _ => ∀ u, t ≤ u → u < t + m.reconnectGrace →
      Pool.Total exec (Instant u) Eq 0 (fun _ r => ∃ c', r = .ok c')
        (resume hash m' c.record.sessionID c.resumeToken connectionID u) w)
    (disconnect m c.record.sessionID c.record.connectionID t c.record.connectionEpoch) w

namespace Grace

variable {hash : String → String} {m : Manager} {i : Nat} {e : Env} {w w' : World} {c : Cmd} {t : Time} {α : Type}
  {r : Record} {deadline : Time}

structure Stored (w : World) (r : Record) (deadline : Time) : Prop where
  redis : w.store = .redis
  random : isRandomID r.sessionID = true
  entry : w.data.lookup (.session r.sessionID) = some ⟨r, deadline⟩

theorem Stored.lookup (h : Stored w r deadline) :
    w.lookup (.session r.sessionID) = if deadline ≤ w.clock then none else some r := by
  rw [World.lookup, h.entry]
  simp only [h.redis, true_and]

theorem Stored.key (h : Stored w r deadline) : w.key r.sessionID = .session r.sessionID := key_of_isRandomID h.random

theorem Stored.congr (h : Stored w r deadline) (hstore : w'.store = w.store)
    (hentry : w'.data.lookup (.session r.sessionID) = w.data.lookup (.session r.sessionID)) : Stored w' r deadline :=
  ⟨hstore.trans h.redis, h.random, hentry.trans h.entry⟩

theorem Stored.at (h : Stored w r deadline) (t : Time) : Stored { w with clock := t } r deadline := h.congr rfl rfl

/-! ## Commands at one time -/

theorem exec_instant (h : Instant t e w) : exec i e w c = World.answer { w with clock := t } i e c := by
  obtain ⟨hfail, -, hclock⟩ := h
  simp only [exec, hfail, hclock]

theorem ttl_instant (he : e.lag = 0) : w.ttl e r = r.expireAt - w.clock := by
  rw [World.ttl, he, Nat.sub_zero]

section
variable {post : World → α → Prop}

theorem total_call {k : Ans c → Prog Ans α} (hle : w.clock ≤ t)
    (h : ∀ e : Env, e.lag = 0 → ∃ r w', World.answer { w with clock := t } i e c = some (r, w') ∧
      Pool.Total exec (Instant t) Eq i post (k r) w') : Pool.Total exec (Instant t) Eq i post (.call c k) w := by
  rintro w₁ rfl
  refine ⟨?_, fun e r w₂ he hx => ?_⟩
  · obtain ⟨r, w₂, hx, -⟩ := h { delay := t - w.clock } rfl
    have he : Instant t { delay := t - w.clock } w := ⟨rfl, rfl, Nat.add_sub_cancel' hle⟩
    exact ⟨_, r, w₂, he, (exec_instant he).trans hx⟩
  · obtain ⟨r', w', hx', hnext⟩ := h e he.2.1
    rw [exec_instant he, hx'] at hx
    cases hx
    exact hnext

def Free (w : World) : Prop := ∃ id, isRandomID id = true ∧ id ∉ w.issued.map (·.1)

theorem total_randomID {k : Except GoErr String → Prog Ans α} (hle : w.clock ≤ t) (hfree : Free w)
    (h : ∀ id, Pool.Total exec (Instant t) Eq i post (k (.ok id))
      { w with clock := t, issued := (id, i) :: w.issued }) :
    Pool.Total exec (Instant t) Eq i post (.call .randomID k) w := by
  rintro w₁ rfl
  refine ⟨?_, fun e r w₂ he hx => ?_⟩
  · obtain ⟨id, hid, hnew⟩ := hfree
    have he : Instant t { delay := t - w.clock, id } w := ⟨rfl, rfl, Nat.add_sub_cancel' hle⟩
    refine ⟨_, .ok id, { w with clock := t, issued := (id, i) :: w.issued }, he, (exec_instant he).trans ?_⟩
    simp only [World.answer]
    exact if_pos ⟨hid, hnew⟩
  · rw [exec_instant he] at hx
    simp only [World.answer] at hx
    split at hx
    · cases hx
      exact h e.id
    · cases hx

end

def Tail : Cmd → Prop
  | .enter _ _ _ _ | .preempt _ _ | .publish _ | .emit _ | .leave _ _ _ | .schedule _ _ => True
  | _ => False

structure Beside (t : Time) (w w' : World) : Prop where
  store : w'.store = w.store
  data : w'.data = w.data
  issued : w'.issued = w.issued
  clock : w'.clock = t

theorem Beside.trans {w₁ w₂ : World} (h : Beside t w w₁) (h' : Beside t w₁ w₂) : Beside t w w₂ :=
  ⟨h'.store.trans h.store, h'.data.trans h.data, h'.issued.trans h.issued, h'.clock⟩

theorem tail_answer (hc : Tail c) (w : World) (t : Time) (e : Env) :
    ∃ r w', World.answer { w with clock := t } i e c = some (r, w') ∧ Beside t w w' := by
  cases c with
  | enter _ _ _ _ | publish _ | emit _ | leave _ _ _ | schedule _ _ => exact ⟨_, _, rfl, rfl, rfl, rfl, rfl⟩
  | preempt g n =>
    obtain ⟨connections, heq⟩ := preempt_eq { w with clock := t } g n
    exact ⟨(), _, rfl, by rw [heq], by rw [heq], by rw [heq], by rw [heq]⟩
  | _ => exact hc.elim

theorem total_tail {Q : α → Prop} {q : Prog Ans α} (hq : q.Uses Tail) (hret : q.Returns Q) (hclock : w.clock = t) :
    Pool.Total exec (Instant t) Eq i (fun w' a => Beside t w w' ∧ Q a) q w := by
  induction q generalizing w with
  | ret a => exact ⟨⟨rfl, rfl, rfl, hclock⟩, hret⟩
  | call c k ih =>
    refine total_call (Nat.le_of_eq hclock) fun e _ => ?_
    obtain ⟨r, w', hx, hb⟩ := tail_answer hq.1 w t e
    exact ⟨r, w', hx, (ih r (hq.2 r) (hret r) hb.clock).mono fun _ _ h => ⟨hb.trans h.1, h.2⟩⟩

/-! ## Resume -/

theorem claimAccount_short (accountID : String) (hredis : w.store = .redis) (he : e.lag = 0)
    (httl : r.expireAt - w.clock < millisecond) : ∃ err, w.claimAccount e accountID r = .error err := by
  simp only [World.claimAccount, hredis, ttl_instant he, Nat.div_eq_of_lt httl, if_true]
  by_cases h₀ : r.expireAt - w.clock = 0
  · exact ⟨_, if_pos h₀⟩
  · exact ⟨_, if_neg h₀⟩

theorem claimAccount_instant {accountID : String} (hredis : w.store = .redis) (he : e.lag = 0)
    (httl : millisecond ≤ r.expireAt - w.clock) :
    w.claimAccount e accountID r =
      .ok (w.lookup (.account accountID), w.put (.account accountID) r (w.clock + whole (r.expireAt - w.clock))) := by
  have hpos : 0 < millisecond := by decide
  have h₁ : r.expireAt - w.clock ≠ 0 := Nat.ne_of_gt (Nat.lt_of_lt_of_le hpos httl)
  have h₂ : (r.expireAt - w.clock) / millisecond ≠ 0 := Nat.ne_of_gt (Nat.div_pos httl hpos)
  simp only [World.claimAccount, hredis, ttl_instant he, if_neg h₁, if_neg h₂, whole]

theorem swap_instant (h : Stored w r deadline) (ht : w.clock < deadline) {updated : Record}
    (hsid : updated.sessionID = r.sessionID) (he : e.lag = 0) (httl : millisecond ≤ updated.expireAt - w.clock) :
    w.compareAndSwap e r updated =
      .ok (true, w.put (.session r.sessionID) updated (w.clock + whole (updated.expireAt - w.clock))) := by
  have hpos : 0 < millisecond := by decide
  have hne : updated.expireAt - w.clock ≠ 0 := Nat.ne_of_gt (Nat.lt_of_lt_of_le hpos httl)
  have hlookup : w.lookup (.session r.sessionID) = some r := h.lookup.trans (if_neg (Nat.not_le.mpr ht))
  simp only [World.compareAndSwap, h.redis, ttl_instant he, if_neg hne, hsid, h.key, hlookup, ne_eq, not_true, if_false,
    if_neg (Nat.ne_of_gt (Nat.div_pos httl hpos)), whole]

theorem swap_short (h : Stored w r deadline) (ht : w.clock < deadline) (updated : Record)
    (hsid : updated.sessionID = r.sessionID) (he : e.lag = 0) (httl : updated.expireAt - w.clock < millisecond) :
    ∃ err, w.compareAndSwap e r updated = .error err := by
  have hlookup : w.lookup (.session r.sessionID) = some r := h.lookup.trans (if_neg (Nat.not_le.mpr ht))
  simp only [World.compareAndSwap, h.redis, ttl_instant he, hsid, h.key, hlookup, ne_eq, not_true, if_false,
    Nat.div_eq_of_lt httl, if_true]
  by_cases hne : updated.expireAt - w.clock = 0
  · exact ⟨_, if_pos hne⟩
  · exact ⟨_, if_neg hne⟩

theorem get_instant (h : Stored w r deadline) :
    w.get r.sessionID = if deadline ≤ w.clock then .error errNotFound else .ok r := by
  rw [World.get, h.key, h.lookup]
  by_cases ht : deadline ≤ w.clock
  · simp only [if_pos ht]
  · simp only [if_neg ht]

section
variable {post : World → α → Prop}

theorem total_get {k : Except GoErr Record → Prog Ans α} (h : Stored w r deadline) (hle : w.clock ≤ t)
    (hk : Pool.Total exec (Instant t) Eq i post (k (if deadline ≤ t then .error errNotFound else .ok r))
      { w with clock := t }) : Pool.Total exec (Instant t) Eq i post (.call (.get r.sessionID) k) w := by
  refine total_call hle fun e _ => ⟨_, _, ?_, hk⟩
  simp only [World.answer, get_instant (h.at t)]

theorem total_swap {k : Except GoErr Bool → Prog Ans α} (h : Stored w r deadline) (hle : w.clock ≤ t) (ht : t < deadline)
    {updated : Record} (hsid : updated.sessionID = r.sessionID) (httl : millisecond ≤ updated.expireAt - t)
    (hk : ∀ w', Stored w' updated (t + whole (updated.expireAt - t)) → w'.clock = t → w'.issued = w.issued →
      Pool.Total exec (Instant t) Eq i post (k (.ok true)) w') :
    Pool.Total exec (Instant t) Eq i post (.call (.compareAndSwap r updated) k) w := by
  refine total_call hle fun e he => ⟨.ok true,
    World.put { w with clock := t } (.session r.sessionID) updated (t + whole (updated.expireAt - t)), ?_,
    hk _ ⟨?_, ?_, ?_⟩ rfl rfl⟩
  · simp only [World.answer, swap_instant (h.at t) ht hsid he httl]
    rfl
  · exact h.redis
  · exact hsid ▸ h.random
  · rw [hsid]
    exact AList.lookup_insert _

theorem total_claimAccount {k : Except GoErr (Option Record) → Prog Ans α} {accountID : String}
    (hredis : w.store = .redis) (hle : w.clock ≤ t) (httl : millisecond ≤ r.expireAt - t)
    (hk : ∀ previous w', w'.clock = t → (∀ r' deadline, Stored w r' deadline → Stored w' r' deadline) →
      Pool.Total exec (Instant t) Eq i post (k (.ok previous)) w') :
    Pool.Total exec (Instant t) Eq i post (.call (.claimAccount accountID r) k) w := by
  refine total_call hle fun e he => ⟨.ok (World.lookup { w with clock := t } (.account accountID)),
    World.put { w with clock := t } (.account accountID) r (t + whole (r.expireAt - t)), ?_,
    hk _ _ rfl fun r' deadline h => h.congr rfl (AList.lookup_insert_ne nofun)⟩
  simp only [World.answer, claimAccount_instant (w := { w with clock := t }) hredis he httl]
  rfl

end

theorem resume_ok {token connectionID : String} (h : Stored w r deadline) (hle : w.clock ≤ t) (hfree : Free w)
    (ht : t < deadline) (hexpire : t < r.expireAt) (htoken : hash token = r.resumeTokenHash)
    (httl : millisecond ≤ m.sessionTTL) :
    Pool.Total exec (Instant t) Eq i (fun _ res => ∃ c, res = .ok c)
      (resume hash m r.sessionID token connectionID t) w := by
  have hsub : t + m.sessionTTL - t = m.sessionTTL := Nat.add_sub_cancel_left ..
  unfold resume
  simp only [perform, Prog.perform_bind]
  refine total_get h hle ?_
  rw [if_neg (Nat.not_le.mpr ht)]
  simp only [if_neg (Nat.not_le.mpr hexpire), htoken, ne_eq, not_true, if_false]
  refine total_randomID (Nat.le_refl _) hfree fun next => ?_
  have hdrawn : Stored { w with clock := t, issued := (next, i) :: w.issued } r deadline := h.congr rfl rfl
  refine total_swap hdrawn (Nat.le_refl _) ht rfl (by rw [hsub]; exact httl) fun w₁ hs hclock _ => ?_
  refine total_claimAccount hs.redis (Nat.le_of_eq hclock) (by rw [hsub]; exact httl) fun claimed w₂ hclock _ => ?_
  refine (total_tail (Q := fun res => ∃ c, res = .ok c) ?_ ?_ hclock).mono
    fun _ _ h => h.2
  · exact ⟨trivial, fun _ => uses_preempt_emit (fun _ _ => trivial) (fun _ => trivial) (fun _ => trivial) ..⟩
  · exact fun _ => (Prog.returns_true _).bind fun _ _ _ => ⟨_, rfl⟩

theorem resume_lapsed {token connectionID : String} (h : Stored w r deadline) (hle : w.clock ≤ t) (ht : deadline ≤ t) :
    Pool.Total exec (Instant t) Eq i (fun _ res => ∀ c, res ≠ .ok c)
      (resume hash m r.sessionID token connectionID t) w := by
  unfold resume
  simp only [perform, Prog.perform_bind]
  refine total_get h hle ?_
  rw [if_pos ht]
  exact fun _ => nofun

/-! ## Disconnect -/

theorem disconnect_lapsed {connectionID : String} {epoch : Nat} (h : Stored w r deadline) (hle : w.clock ≤ t)
    (ht : deadline ≤ t) :
    Pool.Total exec (Instant t) Eq i (fun w' _ => Stored w' r deadline ∧ w'.issued = w.issued ∧ w'.clock = t)
      (disconnect m r.sessionID connectionID t epoch) w := by
  unfold disconnect
  simp only [perform, Prog.perform_bind]
  refine total_get h hle ?_
  rw [if_pos ht]
  exact ⟨h.at t, rfl, rfl⟩

theorem releaseAccount_stored (h : Stored w r deadline) (accountID connectionID : String) :
    Stored (w.releaseAccount accountID connectionID) r deadline ∧
      (w.releaseAccount accountID connectionID).clock = w.clock := by
  simp only [World.releaseAccount, h.redis]
  split
  · exact ⟨h, rfl⟩
  · split
    · exact ⟨h.congr h.redis.symm (AList.lookup_erase_ne nofun), rfl⟩
    · exact ⟨h, rfl⟩

theorem disconnect_short (h : Stored w r deadline) (hle : w.clock ≤ t) (ht : t < deadline)
    (hshort : m.reconnectGrace < millisecond) :
    Pool.Total exec (Instant t) Eq i (fun w' _ => Stored w' r deadline ∧ w'.issued = w.issued ∧ w'.clock = t)
      (disconnect m r.sessionID r.connectionID t r.connectionEpoch) w := by
  unfold disconnect
  simp only [perform, Prog.perform_bind]
  refine total_get h hle ?_
  rw [if_neg (Nat.not_le.mpr ht)]
  simp only [ne_eq, not_true, and_false, if_false]
  refine total_call (Nat.le_refl _) fun e he => ?_
  obtain ⟨err, heq⟩ := swap_short (h.at t) ht
    { r with state := .reconnecting, connectionID := "", expireAt := t + m.reconnectGrace } rfl he
    (Nat.lt_of_le_of_lt (Nat.le_of_eq (Nat.add_sub_cancel_left ..)) hshort)
  refine ⟨.error err, { w with clock := t }, ?_, h.at t, rfl, rfl⟩
  simp only [World.answer, heq]
  rfl

theorem disconnect_ok (h : Stored w r deadline) (hle : w.clock ≤ t) (ht : t < deadline)
    (hgrace : millisecond ≤ m.reconnectGrace) :
    Pool.Total exec (Instant t) Eq i
      (fun w' _ => Stored w' { r with state := .reconnecting, connectionID := "", expireAt := t + m.reconnectGrace }
        (t + whole m.reconnectGrace) ∧ w'.issued = w.issued ∧ w'.clock = t)
      (disconnect m r.sessionID r.connectionID t r.connectionEpoch) w := by
  have hsub : t + m.reconnectGrace - t = m.reconnectGrace := Nat.add_sub_cancel_left ..
  unfold disconnect
  simp only [perform, Prog.perform_bind]
  refine total_get h hle ?_
  rw [if_neg (Nat.not_le.mpr ht)]
  simp only [ne_eq, not_true, and_false, if_false]
  refine total_swap (h.at t) (Nat.le_refl _) ht rfl (by rw [hsub]; exact hgrace) fun w₁ hs hclock hissued => ?_
  rw [hsub] at hs
  refine total_call (Nat.le_of_eq hclock) fun e _ => ⟨.ok (), _, rfl, ?_⟩
  obtain ⟨hrel, hrelclock⟩ := releaseAccount_stored (hs.at t) r.accountID r.connectionID
  refine (total_tail (Q := fun _ => True) ?_ (Prog.returns_true _) hrelclock).mono fun w' _ hb => ⟨?_, ?_, hb.1.clock⟩
  · exact ⟨trivial, fun _ => ⟨trivial, fun _ => ⟨trivial, fun _ => trivial⟩⟩⟩
  · exact hrel.congr hb.1.store (by rw [hb.1.data])
  · rw [hb.1.issued, issued_releaseAccount]
    exact hissued

/-! ## The call that opened the connection -/

abbrev Sole (t : Time) (post : World → α → Prop) : Prog Ans α → World → Prop :=
  Pool.Safe exec (fun _ e w _ => Instant t e w) (fun _ => True) (fun j w w' => j = 0 → w = w') 0 post

section
variable {post : World → α → Prop}

theorem sole_call {k : Ans c → Prog Ans α}
    (h : ∀ e r w', e.lag = 0 → World.answer { w with clock := t } 0 e c = some (r, w') → Sole t post (k r) w') :
    Sole t post (.call c k) w := by
  rintro e w₁ r w' hr - he hx
  obtain rfl := hr rfl
  exact ⟨trivial, fun j hj h0 => absurd h0 hj, h e r w' he.2.1 ((exec_instant he).symm.trans hx)⟩

end

structure Opened (hash : String → String) (m : Manager) (t : Time) (w : World) (c : Created) : Prop where
  stored : Stored w c.record (t + whole m.sessionTTL)
  clock : w.clock = t
  expireAt : c.record.expireAt = t + m.sessionTTL
  token : hash c.resumeToken = c.record.resumeTokenHash
  ttl : millisecond ≤ m.sessionTTL

def OpenedIf (hash : String → String) (m : Manager) (t : Time) (w : World) : Except GoErr Created → Prop
  | .error _ => True
  | .ok c => isRandomID c.record.sessionID = true → Opened hash m t w c

theorem sole_claim {d : Created} {accountID : String} {k : Except GoErr (Option Record) → Prog Ans (Except GoErr Created)}
    (hw : w.store = .redis) (hclock : w.clock = t) (hexpire : d.record.expireAt = t + m.sessionTTL)
    (htoken : hash d.resumeToken = d.record.resumeTokenHash)
    (hstored : millisecond ≤ m.sessionTTL → isRandomID d.record.sessionID = true →
      Stored w d.record (t + whole m.sessionTTL))
    (herror : ∀ err, k (.error err) = .ret (.error err)) (huses : ∀ claimed, (k (.ok claimed)).Uses Tail)
    (hreturns : ∀ claimed, (k (.ok claimed)).Returns (· = .ok d)) :
    Sole t (OpenedIf hash m t) (.call (.claimAccount accountID d.record) k) w := by
  have hsub : d.record.expireAt - t = m.sessionTTL := by rw [hexpire, Nat.add_sub_cancel_left]
  by_cases httl : millisecond ≤ m.sessionTTL
  · refine (total_claimAccount hw (Nat.le_of_eq hclock) (hsub ▸ httl) fun claimed w₁ hclock hkeep => ?_).safe
    refine (total_tail (huses claimed) (hreturns claimed) hclock).mono fun w₂ res h => ?_
    rw [h.2]
    exact fun hid => ⟨(hkeep _ _ (hstored httl hid)).congr h.1.store (by rw [h.1.data]), h.1.clock, hexpire, htoken, httl⟩
  · refine sole_call fun e res w' he hx => ?_
    obtain ⟨err, heq⟩ := claimAccount_short (w := { w with clock := t }) accountID hw he
      (Nat.not_le.mp (hsub.symm ▸ httl))
    simp only [World.answer, heq, commitWith, Option.some.injEq, Prod.mk.injEq] at hx
    rw [← hx.1, herror]
    trivial

theorem sole_randomID {k : Except GoErr String → Prog Ans (Except GoErr Created)}
    (h : ∀ id w', isRandomID id = true → w'.store = w.store → w'.clock = t → Sole t (OpenedIf hash m t) (k (.ok id)) w') :
    Sole t (OpenedIf hash m t) (.call .randomID k) w := by
  refine sole_call fun e res w' he hx => ?_
  simp only [World.answer] at hx
  split at hx
  · rename_i hid
    cases hx
    exact h e.id _ hid.1 rfl rfl
  · cases hx

theorem put_of_create (hredis : w.store = .redis) (he : e.lag = 0) (h : w.create e r = .ok w') :
    w' = w.put (w.key r.sessionID) r
      (w.clock + max 1 ((r.expireAt - w.clock) / millisecond) * millisecond) := by
  simp only [World.create, hredis, ttl_instant he] at h
  split at h
  · cases h
  · split at h
    · cases h
    · exact (Except.ok.inj h).symm

theorem put_of_swap {expected updated : Record} (hredis : w.store = .redis) (he : e.lag = 0)
    (h : w.compareAndSwap e expected updated = .ok (true, w')) :
    w' = w.put (w.key updated.sessionID) updated (w.clock + whole (updated.expireAt - w.clock)) := by
  simp only [World.compareAndSwap, hredis, ttl_instant he] at h
  split at h
  · cases h
  · split at h
    · cases h
    · split at h
      · cases h
      · cases h
        rfl

theorem Stored.put (hredis : w.store = .redis) (hid : isRandomID r.sessionID = true) (deadline : Time) :
    Stored (w.put (w.key r.sessionID) r deadline) r deadline :=
  ⟨hredis, hid, by rw [key_of_isRandomID hid]; exact AList.lookup_insert _⟩

theorem sole_write {k : Except GoErr Unit → Prog Ans (Except GoErr Created)} (hredis : w.store = .redis)
    (herror : ∀ err, k (.error err) = .ret (.error err))
    (h : Sole t (OpenedIf hash m t) (k (.ok ())) (World.put { w with clock := t } (w.key r.sessionID) r
      (t + max 1 ((r.expireAt - t) / millisecond) * millisecond))) :
    Sole t (OpenedIf hash m t) (.call (.create r) k) w := by
  refine sole_call fun e res w' he hx => ?_
  cases hcreate : World.create { w with clock := t } e r with
  | error err =>
    simp only [World.answer, hcreate, commit, Option.some.injEq, Prod.mk.injEq] at hx
    rw [← hx.1, herror]
    trivial
  | ok w₁ =>
    simp only [World.answer, hcreate, commit, Option.some.injEq, Prod.mk.injEq] at hx
    rw [← hx.1, ← hx.2, put_of_create (w := { w with clock := t }) hredis he hcreate]
    exact h

theorem sole_swap {k : Except GoErr Bool → Prog Ans (Except GoErr Created)} {expected updated : Record}
    (hredis : w.store = .redis) (herror : ∀ err, k (.error err) = .ret (.error err))
    (hfalse : ∃ err, k (.ok false) = .ret (.error err))
    (h : Sole t (OpenedIf hash m t) (k (.ok true)) (World.put { w with clock := t } (w.key updated.sessionID) updated
      (t + whole (updated.expireAt - t)))) :
    Sole t (OpenedIf hash m t) (.call (.compareAndSwap expected updated) k) w := by
  refine sole_call fun e res w' he hx => ?_
  cases hswap : World.compareAndSwap { w with clock := t } e expected updated with
  | error err =>
    simp only [World.answer, hswap, commitWith, Option.some.injEq, Prod.mk.injEq] at hx
    rw [← hx.1, herror]
    trivial
  | ok a =>
    obtain ⟨swapped, w₁⟩ := a
    simp only [World.answer, hswap, commitWith, Option.some.injEq, Prod.mk.injEq] at hx
    cases swapped with
    | false =>
      obtain ⟨err, hk⟩ := hfalse
      rw [← hx.1, hk]
      trivial
    | true =>
      rw [← hx.1, ← hx.2, put_of_swap (w := { w with clock := t }) hredis he hswap]
      exact h

theorem sole_create {accountID connectionID playerID : String} (hw : w.store = .redis) :
    Sole t (OpenedIf hash m t) (create hash m accountID connectionID t playerID) w := by
  unfold create
  simp only [perform, Prog.perform_bind]
  refine sole_randomID fun sid w₁ hsid hstore₁ _ => ?_
  refine sole_randomID fun token w₂ _ hstore₂ _ => ?_
  have hredis : w₂.store = .redis := hstore₂.trans (hstore₁.trans hw)
  refine sole_write hredis (fun _ => rfl) ?_
  refine sole_claim (d := ⟨_, token⟩) hredis rfl rfl rfl (fun httl hid => ?_) (fun _ => rfl) (fun _ => ?_) fun _ => ?_
  · have hmax : max 1 (m.sessionTTL / millisecond) = m.sessionTTL / millisecond :=
      Nat.max_eq_right (Nat.div_pos httl (by decide))
    rw [Nat.add_sub_cancel_left, hmax]
    exact Stored.put (w := { w₂ with clock := t }) hredis hid _
  · exact ⟨trivial, fun _ => uses_preempt_emit (fun _ _ => trivial) (fun _ => trivial) (fun _ => trivial) ..⟩
  · exact fun _ => (Prog.returns_true _).bind fun _ _ _ => rfl

theorem sole_resume {sessionID token connectionID : String} (hw : w.store = .redis) :
    Sole t (OpenedIf hash m t) (resume hash m sessionID token connectionID t) w := by
  unfold resume
  simp only [perform, Prog.perform_bind]
  refine sole_call fun e res w₁ _ hx => ?_
  obtain rfl : { w with clock := t } = w₁ := by
    simp only [World.answer, Option.some.injEq, Prod.mk.injEq] at hx
    exact hx.2
  cases res with
  | error err => trivial
  | ok expected =>
    dsimp only
    split
    · refine sole_call fun _ _ _ _ _ => ?_
      trivial
    split
    · trivial
    refine sole_randomID fun nextToken w₂ _ hstore _ => ?_
    have hredis : w₂.store = .redis := hstore.trans hw
    refine sole_swap hredis (fun _ => rfl) ⟨_, rfl⟩ ?_
    refine sole_claim (d := ⟨_, nextToken⟩) hredis rfl rfl rfl (fun httl hid => ?_) (fun _ => rfl) (fun _ => ?_) fun _ => ?_
    · rw [Nat.add_sub_cancel_left]
      exact Stored.put (w := { w₂ with clock := t }) hredis hid _
    · exact ⟨trivial, fun _ => uses_preempt_emit (fun _ _ => trivial) (fun _ => trivial) (fun _ => trivial) ..⟩
    · exact fun _ => (Prog.returns_true _).bind fun _ _ _ => rfl

theorem opened_run {opening : Prog Ans (Except GoErr Created)} {sched : List (Nat × Env)} {d : Created}
    (hredis : w.store = .redis) (hopening : Opens hash m t opening)
    (hsched : Pool.Along exec (Pool.Alone (Instant t) 0) (Pool.start w [opening]) sched)
    (hd : (Pool.run exec (Pool.start w [opening]) sched).answer 0 = some (.ok d))
    (hid : isRandomID d.record.sessionID = true) :
    Opened hash m t (Pool.run exec (Pool.start w [opening]) sched).world d := by
  have hsole : Sole t (OpenedIf hash m t) opening w := by
    cases hopening with
    | create => exact sole_create hredis
    | resume => exact sole_resume hredis
  exact Pool.safe_alone sched rfl hsole hsched hd hid

theorem reconnects_iff {m' : Manager} {d : Created} {connectionID : String} {after : Record}
    (hdisconnect : Pool.Total exec (Instant t) Eq 0
      (fun w' _ => Stored w' after deadline ∧ w'.issued = w.issued ∧ w'.clock = t)
      (disconnect m d.record.sessionID d.record.connectionID t d.record.connectionEpoch) w)
    (hsid : after.sessionID = d.record.sessionID) (htoken : hash d.resumeToken = after.resumeTokenHash)
    (hexpire : deadline ≤ after.expireAt) (hfree : Free w) (httl : millisecond ≤ m'.sessionTTL) :
    Reconnects hash m m' d connectionID t w ↔ m.reconnectGrace = 0 ∨ t + m.reconnectGrace ≤ deadline := by
  constructor
  · intro h
    by_contra hnot
    obtain ⟨hgrace, hdeadline⟩ := not_or.mp hnot
    obtain ⟨w', -, ⟨hs, -, hclock⟩, hresumes⟩ := (hdisconnect.and h).exists_post fun _ => rfl
    -- a resume at the deadline, or at once if that has passed
    have hlt : max t deadline < t + m.reconnectGrace :=
      Nat.max_lt.mpr ⟨Nat.lt_add_of_pos_right (Nat.pos_of_ne_zero hgrace), Nat.not_le.mp hdeadline⟩
    have hresume := hresumes _ (Nat.le_max_left ..) hlt
    rw [← hsid] at hresume
    obtain ⟨-, res, ⟨d', rfl⟩, hne⟩ := (hresume.and (resume_lapsed hs (hclock ▸ Nat.le_max_left ..)
      (Nat.le_max_right ..))).exists_post fun _ => rfl
    exact hne d' rfl
  · intro h
    refine hdisconnect.mono fun w' _ hw' u hle hlt => ?_
    have hu : u < deadline := by
      rcases h with h | h
      · rw [h] at hlt
        exact absurd hlt (Nat.not_lt.mpr hle)
      · exact Nat.lt_of_lt_of_le hlt h
    rw [← hsid]
    refine resume_ok hw'.1 (hw'.2.2 ▸ hle) ?_ hu (Nat.lt_of_lt_of_le hu hexpire) htoken httl
    unfold Free
    rw [hw'.2.1]
    exact hfree

theorem le_whole_iff {duration : Nat} : duration ≤ whole duration ↔ millisecond ∣ duration := by
  constructor
  · intro h
    rw [Nat.le_antisymm h (Nat.div_mul_le_self ..)]
    exact Nat.dvd_mul_left ..
  · intro h
    exact Nat.le_of_eq (Nat.div_mul_cancel h).symm

end Grace

open Grace in
/-- Calls take no time. The connection of a session is open for `duration` and
disconnects: any resume within the grace period succeeds exactly if the TTL has
not run out and Redis keeps the whole grace period. -/
theorem resume_within_grace_iff (hash : String → String) (m m' : Manager) (hsame : m'.sessionTTL = m.sessionTTL)
    (w₀ : World) (hredis : w₀.store = .redis) (opening : Prog Ans (Except GoErr Created)) (opened : Time)
    (hopening : Opens hash m opened opening) (sched : List (Nat × Env))
    (hsched : Pool.Along exec (Pool.Alone (Instant opened) 0) (Pool.start w₀ [opening]) sched) (d : Created)
    (hd : (Pool.run exec (Pool.start w₀ [opening]) sched).answer 0 = some (.ok d))
    (hid : isRandomID d.record.sessionID = true)
    (hfree : Free (Pool.run exec (Pool.start w₀ [opening]) sched).world) (duration : Nat) (connectionID : String) :
    Reconnects hash m m' d connectionID (opened + duration) (Pool.run exec (Pool.start w₀ [opening]) sched).world ↔
      m.reconnectGrace = 0 ∨ duration < whole m.sessionTTL ∧
        (if millisecond ≤ m.reconnectGrace then millisecond ∣ m.reconnectGrace
          else duration + m.reconnectGrace ≤ whole m.sessionTTL) := by
  have h := opened_run hredis hopening hsched hd hid
  have hle := Nat.le_trans (Nat.le_of_eq h.clock) (Nat.le_add_right opened duration)
  have httl : millisecond ≤ m'.sessionTTL := hsame ▸ h.ttl
  have hexpire : opened + whole m.sessionTTL ≤ d.record.expireAt := by
    rw [h.expireAt]
    exact Nat.add_le_add_left (Nat.div_mul_le_self ..) _
  by_cases hopen : duration < whole m.sessionTTL
  · have ht : opened + duration < opened + whole m.sessionTTL := Nat.add_lt_add_left hopen _
    by_cases hgrace : millisecond ≤ m.reconnectGrace
    · rw [reconnects_iff (disconnect_ok h.stored hle ht hgrace) rfl h.token
        (Nat.add_le_add_left (Nat.div_mul_le_self ..) _) hfree httl]
      simp only [hopen, true_and, if_pos hgrace, Nat.add_le_add_iff_left, le_whole_iff]
    · rw [reconnects_iff (disconnect_short h.stored hle ht (Nat.not_le.mp hgrace)) rfl h.token hexpire hfree httl]
      simp only [hopen, true_and, if_neg hgrace, Nat.add_assoc, Nat.add_le_add_iff_left]
  · have ht : opened + whole m.sessionTTL ≤ opened + duration := Nat.add_le_add_left (Nat.not_lt.mp hopen) _
    rw [reconnects_iff (disconnect_lapsed h.stored hle ht) rfl h.token hexpire hfree httl]
    simp only [hopen, false_and, or_false, Nat.add_assoc, Nat.add_le_add_iff_left]
    omega

def defaultManager : Manager := ⟨0, "gateway-1", 86400000000000, 30000000000⟩

def openDraw (id : String) : Nat × Env := (0, { id })

def openSched : List (Nat × Env) :=
  [openDraw drawn1, openDraw drawn2] ++ Pool.inOrder [0, 0, 0, 0]

def openCreated : Created where
  record :=
    { sessionID := drawn1, accountID := "account", playerID := "player"
      gatewayInstanceID := "gateway-1", connectionID := "c1", connectionEpoch := 1, state := .authenticated
      resumeTokenHash := drawn2, expireAt := 86400000000000 }
  resumeToken := drawn2

theorem resume_within_grace_hour :
    Reconnects id defaultManager defaultManager openCreated "c2" (0 + 3600000000000)
      (Pool.run exec (Pool.start (World.init .redis 1 ∅ 0) [create id defaultManager "account" "c1" 0 "player"])
        openSched).world :=
  (resume_within_grace_iff id defaultManager defaultManager rfl (World.init .redis 1 ∅ 0) rfl _ 0
    (.create "account" "c1" "player") openSched
    ⟨⟨rfl, rfl, rfl, rfl⟩, ⟨rfl, rfl, rfl, rfl⟩, ⟨rfl, rfl, rfl, rfl⟩, ⟨rfl, rfl, rfl, rfl⟩, ⟨rfl, rfl, rfl, rfl⟩,
      ⟨rfl, rfl, rfl, rfl⟩, trivial⟩
    openCreated (by decide +kernel) (by decide +kernel) ⟨drawn3, by decide +kernel⟩
    3600000000000 "c2").mpr (by decide +kernel)

theorem resume_after_a_day :
    let s := Pool.run exec
      (State.init id (World.init .redis 1 ∅ 0)
        [.create defaultManager "account" "c1" 0 "player",
          .disconnect defaultManager drawn1 "c1" 86400000000000 1,
          .resume defaultManager drawn1 drawn2 "c2" 86400000000000])
      (openSched ++ (1, { delay := 86400000000000 }) :: Pool.inOrder [2])
    s.answer 0 = some (.ok (.created openCreated)) ∧ s.world.clock = 86400000000000 ∧
      s.answer 1 = some (.error errNotFound) ∧ s.answer 2 = some (.error errNotFound) := by
  decide +kernel

end GameServer.Gateway
