import GameServer.SessionExec
import Mathlib.Data.List.Nodup

/-!
# The sessions of a connection

The loop of a websocket connection: its messages are handled one after the
other, and when it ends `disconnectSession` cleans up after the session that was
bound last. A session that was bound before is left alone, so at most one
session names the connection, and none once it is closed, as long as a
connection that a session names is not given another one.
-/

namespace GameServer.Gateway

/-! ## Connections -/

/-- A message that has been authenticated. `login` stands for `refreshLogin` too;
a message that is refused before it reaches the sessions is left out. -/
inductive Message
  | login (accountID playerID : String)
  | resume (sessionID token : String)

structure Binding where
  sessionID : String := ""
  epoch : Nat := 0

def Binding.after (b : Binding) : Except GoErr Reply → Binding
  | .ok (.created c) => ⟨c.record.sessionID, c.record.connectionEpoch⟩
  | _ => b

def disconnectSession (m : Manager) (connectionID : String) (b : Binding) : Handler :=
  if b.sessionID = "" then return .ok .done
  else do
    let now : Time ← perform .now
    let _ ← disconnect m b.sessionID connectionID now b.epoch
    return .ok .done

/-- `Handle`: `readPump`, and then the deferred `disconnectSession`. That the
connection leaves `Handler.connections` in between is left out: no session
depends on it. -/
def handle (hash : String → String) (m : Manager) (connectionID : String) : List Message → Binding → Handler
  | [], b => disconnectSession m connectionID b
  | .login accountID playerID :: messages, b => do
    let reply ← login hash m connectionID accountID playerID
    handle hash m connectionID messages (b.after reply)
  | .resume sessionID token :: messages, b => do
    let reply ← resumeLogin hash m connectionID sessionID token
    handle hash m connectionID messages (b.after reply)

inductive Task
  | handle (m : Manager) (connectionID : String) (messages : List Message)
  | expire (k : Nat)
  | deliver (g : Nat)

namespace Task

def handler (hash : String → String) : Task → Handler
  | .handle m connectionID messages => Gateway.handle hash m connectionID messages {}
  | .expire k => (Call.expire k).handler hash
  | .deliver g => (Call.deliver g).handler hash

def connection? : Task → Option String
  | .handle _ connectionID _ => some connectionID
  | _ => none

end Task

structure Tasks where
  list : List Task
  distinct : (list.filterMap Task.connection?).Nodup
  named : "" ∉ list.filterMap Task.connection?

def State.ofTasks (hash : String → String) (w : World) (tasks : Tasks) : State :=
  Pool.start w (tasks.list.map (Task.handler hash))

/-! ## Records that name a connection -/

def Names (w : World) (sid connectionID : String) : Prop :=
  ∃ r, w.kept (.session sid) = some r ∧ r.connectionID = connectionID

def NamedOnce (w : World) : Prop :=
  ∀ connectionID, connectionID ≠ "" → ∀ sid sid', Names w sid connectionID → Names w sid' connectionID → sid = sid'

def Sole (w : World) (r : Record) : Prop :=
  ∀ sid, w.key r.sessionID = .session sid → r.connectionID ≠ "" → ∀ sid', Names w sid' r.connectionID → sid' = sid

def Single (i : Nat) (e : Env) (w : World) : Cmd → Prop
  | .create r => ∀ w', exec i e w (.create r) = some (.ok (), w') → Sole w r
  | .compareAndSwap expected updated =>
    ∀ w', exec i e w (.compareAndSwap expected updated) = some (.ok true, w') → Sole w updated
  | _ => True

instance (w : World) (sid connectionID : String) : Decidable (Names w sid connectionID) :=
  decidable_of_iff (∃ r ∈ w.kept (.session sid), r.connectionID = connectionID) Iff.rfl

def Key.session? : Key → Option String
  | .session sid => some sid
  | .account _ => none

theorem sole_iff {w : World} {r : Record} :
    Sole w r ↔ ∀ sid ∈ (w.key r.sessionID).session?, r.connectionID ≠ "" →
      ∀ x ∈ w.data.entries, x.2.record.connectionID = r.connectionID → ∀ sid' ∈ x.1.session?, sid' = sid := by
  have hsession : ∀ (k : Key) sid, sid ∈ k.session? ↔ k = .session sid := by
    intro k sid
    cases k <;> simp [Key.session?]
  constructor
  · rintro h sid hsid hne ⟨k, entry⟩ hx hconn sid' hsid'
    obtain rfl := (hsession k sid').mp hsid'
    have hentry : w.data.lookup (.session sid') = some entry := AList.mem_lookup_iff.mpr hx
    exact h sid ((hsession _ sid).mp hsid) hne sid' ⟨entry.record, by rw [World.kept, hentry, Option.map_some], hconn⟩
  · rintro h sid hkey hne sid' ⟨r', hr', hconn⟩
    obtain ⟨entry, hentry, rfl⟩ := Option.map_eq_some_iff.mp hr'
    exact h sid ((hsession _ sid).mpr hkey) hne ⟨.session sid', entry⟩ (AList.mem_lookup_iff.mp hentry) hconn sid' rfl

instance (w : World) (r : Record) : Decidable (Sole w r) := decidable_of_iff _ sole_iff.symm

instance (i : Nat) (e : Env) (w : World) : (c : Cmd) → Decidable (Single i e w c)
  | .create r => match hx : exec i e w (.create r) with
    | some (.ok (), w') => decidable_of_iff (Sole w r) ⟨fun h _ _ => h, fun h => h w' hx⟩
    | some (.error _, _) => .isTrue fun _ h => nomatch hx.symm.trans h
    | none => .isTrue fun _ h => nomatch hx.symm.trans h
  | .compareAndSwap expected updated => match hx : exec i e w (.compareAndSwap expected updated) with
    | some (.ok true, w') => decidable_of_iff (Sole w updated) ⟨fun h _ _ => h, fun h => h w' hx⟩
    | some (.ok false, _) => .isTrue fun _ h => nomatch hx.symm.trans h
    | some (.error _, _) => .isTrue fun _ h => nomatch hx.symm.trans h
    | none => .isTrue fun _ h => nomatch hx.symm.trans h
  | .now | .randomID | .get _ | .delete _ | .claimAccount _ _ | .releaseAccount _ _ | .enter _ _ _ _ | .leave _ _ _ | .emit _
  | .preempt _ _ | .publish _ | .deliver _ | .bindSession _ _ _ | .schedule _ _ | .fire _ => .isTrue trivial

def Sheds (w w' : World) : Prop :=
  ∀ sid r', w'.kept (.session sid) = some r' →
    ∃ r, w.kept (.session sid) = some r ∧ (r' = r ∨ r' = { r with connectionID := "" })

section
variable {i : Nat} {e : Env} {w w' : World}

theorem Sheds.of_kept (h : ∀ sid r', w'.kept (.session sid) = some r' → w.kept (.session sid) = some r') : Sheds w w' :=
  fun sid r' hr' => ⟨r', h sid r' hr', .inl rfl⟩

theorem Sheds.of_data (h : w'.data = w.data) : Sheds w w' :=
  .of_kept fun _ _ hr' => kept_of_data h _ ▸ hr'

theorem Sheds.names (h : Sheds w w') {sid connectionID : String} (hne : connectionID ≠ "") (hn : Names w' sid connectionID) :
    Names w sid connectionID := by
  obtain ⟨r', hr', rfl⟩ := hn
  obtain ⟨r, hr, rfl | rfl⟩ := h sid r' hr'
  · exact ⟨r', hr, rfl⟩
  · exact absurd rfl hne

theorem sheds_releaseAccount (accountID connectionID : String) : Sheds w (w.releaseAccount accountID connectionID) :=
  fun _ _ => kept_releaseAccount

theorem sheds_delete (id : String) : Sheds w (w.delete id) := by
  refine .of_kept fun sid r' h => ?_
  unfold World.kept World.delete at h
  by_cases hk : Key.session sid = w.key id
  · rw [hk, AList.lookup_erase] at h
    cases h
  · rwa [AList.lookup_erase_ne hk] at h

def Shedding : Cmd → Prop
  | .create _ | .compareAndSwap _ _ => False
  | _ => True

theorem sheds_answer {c : Cmd} {r : Ans c} (hc : Shedding c) (h : w.answer i e c = some (r, w')) : Sheds w w' := by
  cases c with
  | create _ | compareAndSwap _ _ => exact hc.elim
  | now | get _ | enter _ _ _ _ | leave _ _ _ | emit _ | publish _ | schedule _ _ =>
    cases h
    exact .of_data rfl
  | randomID =>
    simp only [World.answer] at h
    split at h <;> cases h
    exact .of_data rfl
  | delete id =>
    cases h
    exact sheds_delete id
  | releaseAccount accountID connectionID =>
    cases h
    exact sheds_releaseAccount accountID connectionID
  | claimAccount accountID rec =>
    rcases answer_claimAccount h with rfl | ⟨d, rfl⟩
    · exact .of_data rfl
    · refine .of_kept fun sid r' hr' => ?_
      rwa [kept_put, if_neg (session_ne_account sid _)] at hr'
  | deliver g =>
    obtain ⟨w₁, hw₁, heq⟩ := Option.map_eq_some_iff.mp h
    cases heq
    obtain ⟨_, _, rfl⟩ := deliver_eq hw₁
    exact .of_data rfl
  | fire k =>
    obtain ⟨_, rfl⟩ := fire_eq h
    exact .of_data rfl
  | preempt g n =>
    cases h
    obtain ⟨_, heq⟩ := preempt_eq w g n
    rw [heq]
    exact .of_data rfl
  | bindSession connectionID sessionID epoch =>
    cases h
    obtain ⟨_, heq⟩ := bindSession_eq w connectionID sessionID epoch
    rw [heq]
    exact .of_data rfl

theorem sheds_exec {c : Cmd} {r : Ans c} (h : exec i e w c = some (r, w')) (hc : Shedding c) : Sheds w w' := by
  rcases exec_cases h with h | ⟨-, rfl⟩
  · exact sheds_answer (w := { w with clock := w.clock + e.delay }) hc h
  · exact .of_data rfl

theorem NamedOnce.sheds (h : NamedOnce w) (hs : Sheds w w') : NamedOnce w' :=
  fun c hc sid sid' hn hn' => h c hc sid sid' (hs.names hc hn) (hs.names hc hn')

theorem names_insert {k : Key} {rec : Record} {d : Time} (hdata : w'.data = w.data.insert k ⟨rec, d⟩) {sid c : String} :
    Names w' sid c ↔ (k = .session sid ∧ rec.connectionID = c) ∨ (k ≠ .session sid ∧ Names w sid c) := by
  unfold Names World.kept
  rw [hdata]
  by_cases hk : k = .session sid
  · subst hk
    simp
  · simp [hk, AList.lookup_insert_ne (Ne.symm hk)]

theorem namedOnce_insert_iff (h : NamedOnce w) {rec : Record} {d : Time}
    (hdata : w'.data = w.data.insert (w.key rec.sessionID) ⟨rec, d⟩) : NamedOnce w' ↔ Sole w rec := by
  constructor
  · intro hw' sid hkey hne sid' hn
    by_cases hsid : w.key rec.sessionID = .session sid'
    · exact (Key.session.inj (hkey.symm.trans hsid)).symm
    · exact hw' _ hne sid' sid ((names_insert hdata).mpr (.inr ⟨hsid, hn⟩)) ((names_insert hdata).mpr (.inl ⟨hkey, rfl⟩))
  · intro hsole c hc sid sid' hn hn'
    rcases (names_insert hdata).mp hn with ⟨hkey, rfl⟩ | ⟨-, hold⟩
    · rcases (names_insert hdata).mp hn' with ⟨hkey', -⟩ | ⟨-, hold'⟩
      · exact Key.session.inj (hkey.symm.trans hkey')
      · exact (hsole sid hkey hc sid' hold').symm
    · rcases (names_insert hdata).mp hn' with ⟨hkey', rfl⟩ | ⟨-, hold'⟩
      · exact hsole sid' hkey' hc sid hold
      · exact h c hc sid sid' hold hold'

theorem single_iff (i : Nat) (e : Env) (w : World) (c : Cmd) (h : NamedOnce w) :
    Single i e w c ↔ ∀ r w', exec i e w c = some (r, w') → NamedOnce w' := by
  constructor
  · intro hsingle r w' hx
    cases c with
    | create rec =>
      rcases data_create hx with ⟨-, hdata⟩ | ⟨rfl, d, hdata⟩
      · exact h.sheds (.of_data hdata)
      · exact (namedOnce_insert_iff h hdata).mpr (hsingle w' hx)
    | compareAndSwap expected updated =>
      rcases data_compareAndSwap hx with ⟨-, hdata⟩ | ⟨rfl, d, hdata⟩
      · exact h.sheds (.of_data hdata)
      · exact (namedOnce_insert_iff h hdata).mpr (hsingle w' hx)
    | _ => exact h.sheds (sheds_exec hx trivial)
  · intro hkeeps
    cases c with
    | create rec =>
      intro w' hx
      rcases data_create hx with ⟨hne, -⟩ | ⟨-, d, hdata⟩
      · exact absurd rfl hne
      · exact (namedOnce_insert_iff h hdata).mp (hkeeps _ w' hx)
    | compareAndSwap expected updated =>
      intro w' hx
      rcases data_compareAndSwap hx with ⟨hne, -⟩ | ⟨-, d, hdata⟩
      · exact absurd rfl hne
      · exact (namedOnce_insert_iff h hdata).mp (hkeeps _ w' hx)
    | _ => trivial

end

/-! ## Each connection on its own -/

namespace Named

structure Inv (w : World) : Prop where
  sessions : ∀ sid r, w.kept (.session sid) = some r → r.sessionID = sid ∧ isRandomID sid = true
  accounts : ∀ accountID r, w.kept (.account accountID) = some r → isRandomID r.sessionID = true

section
variable (conn : Nat → Option String)

structure Rely (j : Nat) (w w' : World) : Prop where
  clock : w.clock ≤ w'.clock
  own : ∀ c, conn j = some c → ∀ sid r, w'.kept (.session sid) = some r → r.connectionID = c →
    w.kept (.session sid) = some r

structure Apart : Prop where
  distinct : ∀ i j c, conn i = some c → conn j = some c → i = j
  named : ∀ i, conn i ≠ some ""

def G (i : Nat) (e : Env) (w : World) (c : Cmd) : Prop := Single i e w c ∧ Healthy e w c

abbrev Sound {α : Type} (i : Nat) (post : World → α → Prop) (p : Prog Ans α) (w : World) : Prop :=
  Pool.Safe exec G Inv (Rely conn) i post p w

end

variable {conn : Nat → Option String} {i j : Nat} {e : Env} {w w' : World} {α : Type} {post : World → α → Prop} {c : String}

theorem Apart.ne (ha : Apart conn) (hc : conn i = some c) : c ≠ "" := fun h => ha.named i (h ▸ hc)

theorem Rely.refl (j : Nat) (w : World) : Rely conn j w w := ⟨Nat.le_refl _, fun _ _ _ _ h _ => h⟩

theorem Rely.trans (j : Nat) (a b d : World) (h : Rely conn j a b) (h' : Rely conn j b d) : Rely conn j a d :=
  ⟨Nat.le_trans h.clock h'.clock, fun c hc sid r hr hn => h.own c hc sid r (h'.own c hc sid r hr hn) hn⟩

theorem rely_sheds (ha : Apart conn) (hclock : w.clock ≤ w'.clock) (h : Sheds w w') (j : Nat) : Rely conn j w w' := by
  refine ⟨hclock, fun c hc sid r' hr' hn => ?_⟩
  obtain ⟨r, hr, rfl | rfl⟩ := h sid r' hr'
  · exact hr
  · exact absurd (hc.trans (congrArg some hn.symm)) (ha.named j)

variable {rec : Record} {b : Binding}

theorem rely_insert (ha : Apart conn) (hc : conn i = some c) (hclock : w.clock ≤ w'.clock) {k : Key} {d : Time}
    (hdata : w'.data = w.data.insert k ⟨rec, d⟩) (hrec : rec.connectionID = c ∨ rec.connectionID = "") (hj : j ≠ i) :
    Rely conn j w w' := by
  refine ⟨hclock, fun c' hc' sid r' hr' hn => ?_⟩
  unfold World.kept at hr'
  rw [hdata] at hr'
  by_cases hk : Key.session sid = k
  · rw [hk, AList.lookup_insert] at hr'
    cases hr'
    exfalso
    rcases hrec with hrec | hrec
    · exact hj (ha.distinct j i c ((hn.symm.trans hrec) ▸ hc') hc)
    · exact ha.named j ((hn.symm.trans hrec) ▸ hc')
  · rw [AList.lookup_insert_ne hk] at hr'
    exact hr'

theorem Inv.of_sheds (h : Inv w) (hs : Sheds w w')
    (haccounts : ∀ accountID r, w'.kept (.account accountID) = some r → isRandomID r.sessionID = true) : Inv w' := by
  refine ⟨fun sid r' hr' => ?_, haccounts⟩
  obtain ⟨r, hr, rfl | rfl⟩ := hs sid r' hr'
  · exact h.sessions sid r' hr
  · exact h.sessions sid r hr

theorem Inv.of_data (h : Inv w) (hdata : w'.data = w.data) : Inv w' := by
  refine h.of_sheds (.of_data hdata) fun accountID r hr => ?_
  rw [kept_of_data hdata] at hr
  exact h.accounts accountID r hr

theorem Inv.insert (h : Inv w) {d : Time} (hdata : w'.data = w.data.insert (.session rec.sessionID) ⟨rec, d⟩)
    (hid : isRandomID rec.sessionID = true) : Inv w' := by
  refine ⟨fun sid r hr => ?_, fun accountID r hr => ?_⟩
  · unfold World.kept at hr
    rw [hdata] at hr
    by_cases hk : Key.session sid = .session rec.sessionID
    · rw [hk, AList.lookup_insert] at hr
      cases hk
      cases hr
      exact ⟨rfl, hid⟩
    · rw [AList.lookup_insert_ne hk] at hr
      exact h.sessions sid r hr
  · have hne : Key.account accountID ≠ .session rec.sessionID := nofun
    unfold World.kept at hr
    rw [hdata, AList.lookup_insert_ne hne] at hr
    exact h.accounts accountID r hr

def Mild : Cmd → Prop
  | .create _ | .compareAndSwap _ _ => False
  | .claimAccount _ r => isRandomID r.sessionID = true
  | _ => True

theorem keeps_mild {c : Cmd} {r : Ans c} (hx : exec i e w c = some (r, w')) (hc : Mild c) (hr : c ≠ .randomID) : Keeps w w' := by
  cases c with
  | randomID => exact absurd rfl hr
  | create _ | compareAndSwap _ _ => exact hc.elim
  | delete id => exact keeps_delete hx
  | releaseAccount accountID connectionID => exact keeps_releaseAccount hx
  | claimAccount accountID rec => exact (retains_quiet (by exact hc) hx).toKeeps
  | _ => exact (retains_quiet (by trivial) hx).toKeeps

theorem accounts_mild {c : Cmd} {r : Ans c} (h : Inv w) (hx : exec i e w c = some (r, w')) (hc : Mild c) (accountID : String)
    (rec : Record) (hrec : w'.kept (.account accountID) = some rec) : isRandomID rec.sessionID = true := by
  by_cases hid : c = .randomID
  · subst hid
    have hdata : w'.data = w.data := by
      rcases exec_randomID hx with ⟨rfl, -⟩ | ⟨-, -, -, -, hdata, -⟩
      · rfl
      · exact hdata
    rw [kept_of_data hdata] at hrec
    exact h.accounts accountID rec hrec
  · rcases (keeps_mild hx hc hid).account accountID rec hrec with hrandom | ⟨old, hold, hsame⟩
    · exact hrandom
    · rw [hsame]
      exact h.accounts accountID old hold

theorem Mild.shedding {c : Cmd} (h : Mild c) : Shedding c := by
  cases c with
  | create _ | compareAndSwap _ _ => exact h
  | _ => trivial

theorem clock_le {c : Cmd} {r : Ans c} (hx : exec i e w c = some (r, w')) : w.clock ≤ w'.clock :=
  (beside_exec hx).1 ▸ Nat.le_add_right _ _

theorem inv_mild {c : Cmd} {r : Ans c} (h : Inv w) (hx : exec i e w c = some (r, w')) (hc : Mild c) : Inv w' :=
  h.of_sheds (sheds_exec hx hc.shedding) (accounts_mild h hx hc)

theorem step_mild {c : Cmd} {r : Ans c} (ha : Apart conn) (h : Inv w) (hx : exec i e w c = some (r, w')) (hc : Mild c) :
    Inv w' ∧ ∀ j, Rely conn j w w' :=
  ⟨inv_mild h hx hc, rely_sheds ha (clock_le hx) (sheds_exec hx hc.shedding)⟩

theorem call_mild (ha : Apart conn) {d : Cmd} {k : Ans d → Prog Ans α} (hd : Mild d)
    (hk : ∀ e w₁ r w₂, Rely conn i w w₁ → Inv w₁ → Healthy e w₁ d → exec i e w₁ d = some (r, w₂) → Rely conn i w₁ w₂ →
      Inv w₂ → Sound conn i post (k r) w₂) : Sound conn i post (.call d k) w := by
  intro e w₁ r w₂ hr hi hg hx
  obtain ⟨hi', hrely⟩ := step_mild ha hi hx hd
  exact ⟨hi', fun j _ => hrely j, hk e w₁ r w₂ hr hi hg.2 hx (hrely i) hi'⟩

/-! ### What a connection knows -/

def Free (c : String) (w : World) : Prop := ∀ sid, ¬ Names w sid c

structure Bound (c : String) (b : Binding) (w : World) : Prop where
  only : ∀ sid r, w.kept (.session sid) = some r → r.connectionID = c → sid = b.sessionID ∧ r.connectionEpoch = b.epoch
  random : b.sessionID ≠ "" → isRandomID b.sessionID = true
  unbound : b.sessionID = "" → Free c w

theorem Free.rely (h : Free c w) (hc : conn i = some c) (hr : Rely conn i w w') : Free c w' := by
  rintro sid ⟨r, hrec, hn⟩
  exact h sid ⟨r, hr.own c hc sid r hrec hn, hn⟩

theorem Bound.rely (h : Bound c b w) (hc : conn i = some c) (hr : Rely conn i w w') : Bound c b w' :=
  ⟨fun sid r hrec hn => h.only sid r (hr.own c hc sid r hrec hn) hn, h.random, fun hb => (h.unbound hb).rely hc hr⟩

theorem Bound.of_data (h : Bound c b w) (hdata : w'.data = w.data) : Bound c b w' := by
  refine ⟨fun sid r hrec => h.only sid r (kept_of_data hdata _ ▸ hrec), h.random, ?_⟩
  rintro hb sid ⟨r, hrec, hn⟩
  exact h.unbound hb sid ⟨r, kept_of_data hdata _ ▸ hrec, hn⟩

theorem bound_insert {d : Time} (hdata : w'.data = w.data.insert (w.key rec.sessionID) ⟨rec, d⟩)
    (hid : isRandomID rec.sessionID = true) (hne : rec.connectionID ≠ "") (hsole : Sole w rec) :
    Bound rec.connectionID ⟨rec.sessionID, rec.connectionEpoch⟩ w' := by
  have hsome : rec.sessionID ≠ "" := by
    intro hempty
    rw [hempty] at hid
    exact absurd hid (by decide)
  refine ⟨fun sid r hrec hn => ?_, fun _ => hid, fun hempty => absurd hempty hsome⟩
  unfold World.kept at hrec
  rw [hdata, key_of_isRandomID hid] at hrec
  by_cases hk : Key.session sid = .session rec.sessionID
  · rw [hk, AList.lookup_insert] at hrec
    cases hk
    cases hrec
    exact ⟨rfl, rfl⟩
  · rw [AList.lookup_insert_ne hk] at hrec
    have hsid := hsole rec.sessionID (key_of_isRandomID hid) hne sid ⟨r, hrec, hn⟩
    exact absurd (congrArg Key.session hsid) hk

theorem stored (ha : Apart conn) (hc : conn i = some c) (hi : Inv w) (hclock : w.clock ≤ w'.clock) {d : Time}
    (hdata : w'.data = w.data.insert (w.key rec.sessionID) ⟨rec, d⟩) (hid : isRandomID rec.sessionID = true)
    (hconn : rec.connectionID = c ∨ rec.connectionID = "") : Inv w' ∧ ∀ j, j ≠ i → Rely conn j w w' := by
  rw [key_of_isRandomID hid] at hdata
  exact ⟨hi.insert hdata hid, fun j hj => rely_insert ha hc hclock hdata hconn hj⟩

/-! ### The programs of a connection -/

theorem claimAccount_ok {accountID : String} {r : Except GoErr (Option Record)}
    (hh : Healthy e w (.claimAccount accountID rec)) (hx : exec i e w (.claimAccount accountID rec) = some (r, w')) :
    ∃ claimed, r = .ok claimed := by
  rw [hh.exec_eq] at hx
  have httl := hh.ttl rec (.inr (.inr ⟨accountID, rfl⟩))
  simp only [World.answer, World.claimAccount, Option.some.injEq] at hx
  split at hx
  · cases hx
    exact ⟨_, rfl⟩
  · rename_i hredis
    have hpos : millisecond ≤ World.ttl { w with clock := w.clock + e.delay } e rec := httl hredis
    rw [if_neg (Nat.ne_of_gt (Nat.lt_of_lt_of_le (by decide) hpos)),
      if_neg (Nat.ne_of_gt (Nat.div_pos hpos (by decide)))] at hx
    cases hx
    exact ⟨_, rfl⟩

theorem compareAndSwap_ok {expected updated : Record} {r : Except GoErr Bool} (hid : isRandomID updated.sessionID = true)
    (hsid : expected.sessionID = updated.sessionID) (hh : Healthy e w (.compareAndSwap expected updated))
    (hx : exec i e w (.compareAndSwap expected updated) = some (r, w')) (hold : w.kept (.session updated.sessionID) = some expected) :
    r = .ok true := by
  have hlookup : World.lookup { w with clock := w.clock + e.delay } (.session updated.sessionID) = some expected :=
    (hh.inTime.lookup_eq _).trans hold
  have httl := hh.ttl updated (.inr (.inl ⟨expected, rfl⟩))
  rw [hh.exec_eq] at hx
  simp only [World.answer, World.compareAndSwap, key_of_isRandomID hid, hsid, hlookup, Option.some.injEq] at hx
  split at hx
  · rw [if_pos trivial] at hx
    cases hx
    rfl
  · rename_i hredis
    have hpos : millisecond ≤ World.ttl { w with clock := w.clock + e.delay } e updated := httl hredis
    rw [if_neg (Nat.ne_of_gt (Nat.lt_of_lt_of_le (by decide) hpos)), if_neg (not_not.mpr rfl),
      if_neg (Nat.ne_of_gt (Nat.div_pos hpos (by decide)))] at hx
    cases hx
    rfl

theorem random_of_get {id : String} {r : Record} (hi : Inv w) (hx : exec i e w (.get id) = some (.ok r, w')) :
    isRandomID r.sessionID = true := by
  have hkept := kept_of_lookup (exec_get hx).2
  cases hkey : w.key id with
  | session sid =>
    rw [hkey] at hkept
    obtain ⟨hsid, hrandom⟩ := hi.sessions sid r hkept
    rw [hsid]
    exact hrandom
  | account accountID =>
    rw [hkey] at hkept
    exact hi.accounts accountID r hkept

theorem get_ok {id : String} {r : Record} (hh : Healthy e w (.get id)) (hx : exec i e w (.get id) = some (.ok r, w')) :
    w'.data = w.data ∧ w.kept (w.key id) = some r ∧ w.clock < r.expireAt := by
  obtain ⟨rfl, hlookup⟩ := exec_get hx
  have hkept := kept_of_lookup hlookup
  obtain ⟨entry, hentry, rfl⟩ := Option.map_eq_some_iff.mp hkept
  exact ⟨rfl, hkept, Nat.lt_of_le_of_lt (Nat.le_add_right _ _) (hh.inTime _ _ hentry).1⟩

theorem get_error {id : String} {err : GoErr} (hh : Healthy e w (.get id)) (hx : exec i e w (.get id) = some (.error err, w')) :
    w'.data = w.data ∧ w.kept (w.key id) = none := by
  rw [hh.exec_eq] at hx
  simp only [World.answer, World.get, hh.inTime.lookup_eq, Option.some.injEq, Prod.mk.injEq] at hx
  obtain ⟨herr, rfl⟩ := hx
  split at herr
  · cases herr
  · rename_i hnone
    exact ⟨rfl, hnone⟩

theorem sound_preemptPrevious (ha : Apart conn) (hc : conn i = some c) (hb : Bound c b w) (m : Manager)
    (previous : Option Record) (connectionID : String) (now : Time) :
    Sound conn i (fun w _ => Bound c b w) (preemptPrevious m previous connectionID now) w := by
  refine Pool.Safe.of_uses (P := Mild) (fun _ _ h hr => h.rely hc hr) (fun e w d r w' hd hi hb _ hx => ?_) ?_ hb
  · obtain ⟨hi', hrely⟩ := step_mild ha hi hx hd
    exact ⟨hi', fun j _ => hrely j, hb.rely hc (hrely i)⟩
  · exact uses_preemptPrevious (fun _ _ => trivial) (fun _ => trivial) (fun _ => trivial) m previous connectionID now

def Rebound (c : String) (b : Binding) (w : World) : Except GoErr Created → Prop
  | .ok created => Bound c ⟨created.record.sessionID, created.record.connectionEpoch⟩ w
  | .error _ => Bound c b w

theorem sound_claim (ha : Apart conn) (hc : conn i = some c) (hb : Bound c b w) {accountID : String}
    {k : Except GoErr (Option Record) → Prog Ans α} (hid : isRandomID rec.sessionID = true)
    (hk : ∀ claimed w', Bound c b w' → Sound conn i post (k (.ok claimed)) w') :
    Sound conn i post (.call (.claimAccount accountID rec) k) w := by
  refine call_mild ha hid fun e w₁ r w₂ hr hi hh hx hr' _ => ?_
  obtain ⟨claimed, rfl⟩ := claimAccount_ok hh hx
  exact hk claimed w₂ ((hb.rely hc hr).rely hc hr')

theorem sound_told (ha : Apart conn) (hc : conn i = some c) (hb : Bound c ⟨rec.sessionID, rec.connectionEpoch⟩ w)
    (m : Manager) (accountID sid : String) (previous : String → Option Record) (type : LifecycleType) (now : Time)
    (token : String) :
    Sound conn i (Rebound c b)
      (do
        let previousID : String ← perform (.enter m.index accountID c sid)
        preemptPrevious m (previous previousID) c now
        emitLifecycle type rec now
        return .ok ⟨rec, token⟩) w := by
  refine call_mild ha trivial fun _ _ previousID w₀ hr₀ _ _ _ hr₀' _ => ?_
  have hb₀ := (hb.rely hc hr₀).rely hc hr₀'
  show Sound conn i _ (preemptPrevious m (previous previousID) c now >>= fun _ => _) w₀
  refine Pool.Safe.bind ((sound_preemptPrevious ha hc hb₀ m _ c now).mono fun w₁ _ hb₁ => ?_)
  refine call_mild ha trivial fun _ _ _ w₂ hr _ _ _ hr' _ => ?_
  exact (hb₁.rely hc hr).rely hc hr'

theorem sound_create (ha : Apart conn) (hc : conn i = some c) (hb : Bound c b w) (hash : String → String)
    (m : Manager) (accountID playerID : String) (now : Time) :
    Sound conn i (Rebound c b) (create hash m accountID c now playerID) w := by
  refine call_mild ha trivial fun _ _ sid w₁ hr₁ _ _ hx₁ hr₁' _ => ?_
  have hb₁ := (hb.rely hc hr₁).rely hc hr₁'
  cases sid with
  | error err => exact hb₁
  | ok sid =>
  have hid := isRandomID_of_exec hx₁
  refine call_mild ha trivial fun _ _ token w₂ hr₂ _ _ _ hr₂' _ => ?_
  have hb₂ := (hb₁.rely hc hr₂).rely hc hr₂'
  cases token with
  | error err => exact hb₂
  | ok token =>
  intro e w₃ r w₄ hr hi hg hx
  rcases data_create hx with ⟨hne, hdata⟩ | ⟨rfl, d, hdata⟩
  · refine ⟨hi.of_data hdata, fun j _ => rely_sheds ha (clock_le hx) (.of_data hdata) j, ?_⟩
    cases r with
    | error err => exact (hb₂.rely hc hr).of_data hdata
    | ok u => exact absurd rfl hne
  · obtain ⟨hi', hrely⟩ := stored ha hc hi (clock_le hx) hdata hid (.inl rfl)
    refine ⟨hi', hrely, ?_⟩
    have hb₄ := bound_insert hdata hid (ha.ne hc) (hg.1 w₄ hx)
    exact sound_claim ha hc hb₄ hid fun _ _ hb₅ => sound_told ha hc hb₅ m accountID sid _ .connected now token

theorem sound_resume (ha : Apart conn) (hc : conn i = some c) (hb : Bound c b w) (hash : String → String)
    (m : Manager) (sessionID token : String) {now : Time} (hnow : now ≤ w.clock) :
    Sound conn i (Rebound c b) (resume hash m sessionID token c now) w := by
  refine call_mild ha trivial fun e₁ w₀ expected w₁ hr₁ hi₁ hh₁ hx₁ hr₁' _ => ?_
  have hb₁ := (hb.rely hc hr₁).rely hc hr₁'
  cases expected with
  | error err => exact hb₁
  | ok expected =>
  have hid := random_of_get hi₁ hx₁
  obtain ⟨-, -, hlive⟩ := get_ok hh₁ hx₁
  have hlate : ¬ expected.expireAt ≤ now :=
    Nat.not_le.mpr (Nat.lt_of_le_of_lt (Nat.le_trans hnow hr₁.clock) hlive)
  show Sound conn i _ (if expected.expireAt ≤ now then _ else _) w₁
  rw [if_neg hlate]
  by_cases htoken : hash token ≠ expected.resumeTokenHash
  · show Sound conn i _ (if hash token ≠ expected.resumeTokenHash then _ else _) w₁
    rw [if_pos htoken]
    exact hb₁
  show Sound conn i _ (if hash token ≠ expected.resumeTokenHash then _ else _) w₁
  rw [if_neg htoken]
  refine call_mild ha trivial fun _ _ next w₂ hr₂ _ _ _ hr₂' _ => ?_
  have hb₂ := (hb₁.rely hc hr₂).rely hc hr₂'
  cases next with
  | error err => exact hb₂
  | ok next =>
  intro e w₃ r w₄ hr hi hg hx
  rcases data_compareAndSwap hx with ⟨hne, hdata⟩ | ⟨rfl, d, hdata⟩
  · refine ⟨hi.of_data hdata, fun j _ => rely_sheds ha (clock_le hx) (.of_data hdata) j, ?_⟩
    have hb₄ := (hb₂.rely hc hr).of_data hdata
    cases r with
    | error err => exact hb₄
    | ok swapped =>
      cases swapped with
      | false => exact hb₄
      | true => exact absurd rfl hne
  · obtain ⟨hi', hrely⟩ := stored ha hc hi (clock_le hx) hdata hid (.inl rfl)
    refine ⟨hi', hrely, ?_⟩
    have hb₄ := bound_insert hdata hid (ha.ne hc) (hg.1 w₄ hx)
    exact sound_claim ha hc hb₄ (by exact hid) fun _ _ hb₅ =>
      sound_told ha hc hb₅ m expected.accountID sessionID _ .resumed now next

def Expects (c : String) (expected : Record) (w : World) : Prop :=
  ∀ sid r, w.kept (.session sid) = some r → r.connectionID = c → r = expected

theorem Expects.rely {expected : Record} (h : Expects c expected w) (hc : conn i = some c) (hr : Rely conn i w w') :
    Expects c expected w' :=
  fun sid r hrec hn => h sid r (hr.own c hc sid r hrec hn) hn

theorem free_compareAndSwap {expected updated : Record} {r : Except GoErr Bool} (hi : Inv w) (hk : Expects c expected w)
    (hh : Healthy e w (.compareAndSwap expected updated)) (hx : exec i e w (.compareAndSwap expected updated) = some (r, w'))
    (hid : isRandomID updated.sessionID = true) (hsid : expected.sessionID = updated.sessionID) (hne : updated.connectionID ≠ c) :
    Free c w' := by
  have hat : ∀ sid rec, w.kept (.session sid) = some rec → rec.connectionID = c →
      w.kept (.session updated.sessionID) = some expected ∧ sid = updated.sessionID := by
    intro sid rec hrec hn
    have heq := hk sid rec hrec hn
    have hkey : sid = updated.sessionID := by rw [← hsid, ← heq, (hi.sessions sid rec hrec).1]
    rw [← hkey, hrec, heq]
    exact ⟨rfl, rfl⟩
  rintro sid ⟨rec, hrec, hn⟩
  rcases data_compareAndSwap hx with ⟨hfail, hdata⟩ | ⟨-, d, hdata⟩
  · rw [kept_of_data hdata] at hrec
    exact hfail (compareAndSwap_ok hid hsid hh hx (hat sid rec hrec hn).1)
  · rw [key_of_isRandomID hid] at hdata
    rcases (names_insert hdata).mp ⟨rec, hrec, hn⟩ with ⟨-, hconn⟩ | ⟨hkey, old, hold, hn'⟩
    · exact hne hconn
    · exact hkey (congrArg Key.session (hat sid old hold hn').2.symm)

theorem sound_release (ha : Apart conn) (hc : conn i = some c) (hfree : Free c w) {p : Prog Ans α} (hp : p.Uses Mild) :
    Sound conn i (fun w _ => Free c w) p w := by
  refine Pool.Safe.of_uses (fun _ _ h hr => h.rely hc hr) (fun e w d r w' hd hi hf _ hx => ?_) hp hfree
  obtain ⟨hi', hrely⟩ := step_mild ha hi hx hd
  exact ⟨hi', fun j _ => hrely j, hf.rely hc (hrely i)⟩

theorem sound_disconnect (ha : Apart conn) (hc : conn i = some c) (hb : Bound c b w)
    (hid : isRandomID b.sessionID = true) (m : Manager) (now : Time) :
    Sound conn i (fun w _ => Free c w) (disconnect m b.sessionID c now b.epoch) w := by
  have hne := ha.ne hc
  refine call_mild ha trivial fun e w₀ expected w₁ hr hi hh hx hr' hi' => ?_
  have hb₀ := hb.rely hc hr
  have hb₁ := hb₀.rely hc hr'
  cases expected with
  | error err =>
    obtain ⟨hdata, hnone⟩ := get_error hh hx
    rw [key_of_isRandomID hid] at hnone
    rintro sid ⟨rec, hrec, hn⟩
    rw [(hb₁.only sid rec hrec hn).1, kept_of_data hdata, hnone] at hrec
    cases hrec
  | ok expected =>
  obtain ⟨hdata, hkept, -⟩ := get_ok hh hx
  rw [key_of_isRandomID hid] at hkept
  have hat : ∀ sid rec, w₁.kept (.session sid) = some rec → rec.connectionID = c → rec = expected := by
    intro sid rec hrec hn
    rw [(hb₁.only sid rec hrec hn).1, kept_of_data hdata, hkept] at hrec
    cases hrec
    rfl
  by_cases hconn : c ≠ "" ∧ expected.connectionID ≠ c
  · show Sound conn i _ (if c ≠ "" ∧ expected.connectionID ≠ c then _ else _) w₁
    rw [if_pos hconn]
    rintro sid ⟨rec, hrec, hn⟩
    exact hconn.2 (hat sid rec hrec hn ▸ hn)
  show Sound conn i _ (if c ≠ "" ∧ expected.connectionID ≠ c then _ else _) w₁
  rw [if_neg hconn]
  have hmine : expected.connectionID = c := not_not.mp fun h => hconn ⟨hne, h⟩
  obtain ⟨-, hepoch⟩ := hb₀.only _ _ hkept hmine
  have hsid := (hi.sessions _ _ hkept).1
  simp only [hepoch, ne_eq, not_true_eq_false, and_false, if_false]
  intro e' w₂ r w₃ hr₂ hi₂ hg hx₂
  have hk₂ : Expects c expected w₂ := Expects.rely hat hc hr₂
  have hid' : isRandomID expected.sessionID = true := hsid.symm ▸ hid
  have hfree : Free c w₃ := free_compareAndSwap hi₂ hk₂ hg.2 hx₂ hid' rfl hne.symm
  have hstep : Inv w₃ ∧ ∀ j, j ≠ i → Rely conn j w₂ w₃ := by
    rcases data_compareAndSwap hx₂ with ⟨-, hdata₂⟩ | ⟨-, d, hdata₂⟩
    · exact ⟨hi₂.of_data hdata₂, fun j _ => rely_sheds ha (clock_le hx₂) (.of_data hdata₂) j⟩
    · exact stored ha hc hi₂ (clock_le hx₂) hdata₂ hid' (.inr rfl)
  refine ⟨hstep.1, hstep.2, sound_release ha hc hfree ?_⟩
  cases r with
  | error err => trivial
  | ok swapped =>
    refine ⟨trivial, fun released => ?_⟩
    cases released with
    | error err => trivial
    | ok u => exact ⟨trivial, fun _ => ⟨trivial, fun _ => ⟨trivial, fun _ => trivial⟩⟩⟩

theorem sound_disconnectSession (ha : Apart conn) (hc : conn i = some c) (hb : Bound c b w) (m : Manager) :
    Sound conn i (fun w _ => Free c w) (disconnectSession m c b) w := by
  unfold disconnectSession
  split
  · rename_i hempty
    exact hb.unbound hempty
  · rename_i hempty
    refine call_mild ha trivial fun _ _ now w₁ hr _ _ _ hr' _ => ?_
    have hb₁ := (hb.rely hc hr).rely hc hr'
    have hid := hb.random hempty
    show Sound conn i _ (disconnect m b.sessionID c now b.epoch >>= fun _ => _) w₁
    exact Pool.Safe.bind ((sound_disconnect ha hc hb₁ hid m now).mono fun _ _ hfree => hfree)


theorem sound_bindAndReply (ha : Apart conn) (hc : conn i = some c) {reply : Except GoErr Created}
    (h : Rebound c b w reply) :
    Sound conn i (fun w answer => Bound c (b.after answer) w) (bindAndReply c reply) w := by
  cases reply with
  | error err => exact h
  | ok created => exact call_mild ha trivial fun _ _ _ _ hr _ _ _ hr' _ => (Bound.rely h hc hr).rely hc hr'

theorem sound_login (ha : Apart conn) (hc : conn i = some c) (hb : Bound c b w) (hash : String → String)
    (m : Manager) (accountID playerID : String) :
    Sound conn i (fun w answer => Bound c (b.after answer) w) (login hash m c accountID playerID) w := by
  refine call_mild ha trivial fun _ _ now w₁ hr _ _ _ hr' _ => ?_
  have hb₁ := (hb.rely hc hr).rely hc hr'
  show Sound conn i _ (create hash m accountID c now playerID >>= fun reply => bindAndReply c reply) w₁
  exact Pool.Safe.bind ((sound_create ha hc hb₁ hash m accountID playerID now).mono fun _ _ h => sound_bindAndReply ha hc h)

theorem sound_resumeLogin (ha : Apart conn) (hc : conn i = some c) (hb : Bound c b w) (hash : String → String)
    (m : Manager) (sessionID token : String) :
    Sound conn i (fun w answer => Bound c (b.after answer) w) (resumeLogin hash m c sessionID token) w := by
  unfold resumeLogin
  split
  · exact hb
  · refine call_mild ha trivial fun e w₀ now w₁ hr _ hh hx hr' _ => ?_
    have hb₁ := (hb.rely hc hr).rely hc hr'
    have hnow : now ≤ w₁.clock := by
      rw [hh.exec_eq] at hx
      cases hx
      exact Nat.le_refl _
    show Sound conn i _ (resume hash m sessionID token c now >>= fun reply => bindAndReply c reply) w₁
    exact Pool.Safe.bind ((sound_resume ha hc hb₁ hash m sessionID token hnow).mono fun _ _ h => sound_bindAndReply ha hc h)

theorem sound_handle (ha : Apart conn) (hc : conn i = some c) (hash : String → String) (m : Manager) :
    ∀ (messages : List Message) {b : Binding} {w : World}, Bound c b w →
      Sound conn i (fun w _ => Free c w) (handle hash m c messages b) w
  | [], _, _, hb => sound_disconnectSession ha hc hb m
  | .login accountID playerID :: messages, _, _, hb =>
    Pool.Safe.bind ((sound_login ha hc hb hash m accountID playerID).mono fun _ _ hb' =>
      sound_handle ha hc hash m messages hb')
  | .resume sessionID token :: messages, _, _, hb =>
    Pool.Safe.bind ((sound_resumeLogin ha hc hb hash m sessionID token).mono fun _ _ hb' =>
      sound_handle ha hc hash m messages hb')

theorem mild_expire (k : Nat) : (expire k).Uses Mild := by
  refine ⟨trivial, fun disconnected => ⟨trivial, fun now => ⟨trivial, fun found => ?_⟩⟩⟩
  cases found with
  | error err =>
    show (if _ then _ else _ : Prog Ans Unit).Uses Mild
    split
    · exact ⟨trivial, fun _ => trivial⟩
    · trivial
  | ok record =>
    show (if _ then _ else _ : Prog Ans Unit).Uses Mild
    split
    · trivial
    · refine ⟨trivial, fun deleted => ?_⟩
      cases deleted with
      | error err => trivial
      | ok u => exact ⟨trivial, fun _ => ⟨trivial, fun _ => trivial⟩⟩

theorem inv_init (store : StoreKind) (gateways : Nat) (connections : AList fun _ : String => Connection) (clock : Time) :
    Inv (World.init store gateways connections clock) := ⟨nofun, nofun⟩

def connectionOf (tasks : Tasks) (i : Nat) : Option String := tasks.list[i]?.bind Task.connection?

theorem apart_tasks (tasks : Tasks) : Apart (connectionOf tasks) := by
  have hpair := List.pairwise_filterMap.mp tasks.distinct
  have hlt : ∀ (i j : Nat) c, i < j → connectionOf tasks i = some c → connectionOf tasks j ≠ some c := by
    intro i j c hij hi hj
    obtain ⟨t, ht, hc⟩ := Option.bind_eq_some_iff.mp hi
    obtain ⟨t', ht', hc'⟩ := Option.bind_eq_some_iff.mp hj
    obtain ⟨hi', rfl⟩ := List.getElem?_eq_some_iff.mp ht
    obtain ⟨hj', rfl⟩ := List.getElem?_eq_some_iff.mp ht'
    exact List.pairwise_iff_getElem.mp hpair i j hi' hj' hij c hc c hc' rfl
  refine ⟨fun i j c hi hj => ?_, fun i hi => ?_⟩
  · rcases Nat.lt_trichotomy i j with hij | hij | hij
    · exact absurd hj (hlt i j c hij hi)
    · exact hij
    · exact absurd hi (hlt j i c hij hj)
  · obtain ⟨t, ht, hc⟩ := Option.bind_eq_some_iff.mp hi
    exact tasks.named (List.mem_filterMap.mpr ⟨t, List.mem_of_getElem? ht, hc⟩)

theorem sound_task (ha : Apart conn) (hash : String → String) (store : StoreKind) (gateways : Nat)
    (connections : AList fun _ : String => Connection) (clock : Time) (t : Task) (ht : conn i = t.connection?) :
    Sound conn i (fun w _ => ∀ c, conn i = some c → Free c w) (t.handler hash) (World.init store gateways connections clock) := by
  have hmild : ∀ (p : Handler), conn i = none → p.Uses Mild →
      Sound conn i (fun w _ => ∀ c, conn i = some c → Free c w) p (World.init store gateways connections clock) := by
    intro p hnone hp
    have hsafe : Sound conn i (fun _ _ => True) p (World.init store gateways connections clock) := by
      refine Pool.Safe.of_uses (fun _ _ _ _ => trivial) (fun e w d r w' hd hi _ _ hx => ?_) hp trivial
      obtain ⟨hi', hrely⟩ := step_mild ha hi hx hd
      exact ⟨hi', fun j _ => hrely j, trivial⟩
    refine hsafe.mono fun _ _ _ c hc => ?_
    cases hnone.symm.trans hc
  cases t with
  | handle m connectionID messages =>
    have hfree : Free connectionID (World.init store gateways connections clock) := by
      rintro sid ⟨r, hr, -⟩
      cases hr
    have hbound : Bound connectionID {} (World.init store gateways connections clock) :=
      ⟨fun _ _ hr => (nomatch hr), fun h => absurd rfl h, fun _ => hfree⟩
    refine (sound_handle ha ht hash m messages hbound).mono fun w _ hfree c hc => ?_
    cases ht.symm.trans hc
    exact hfree
  | expire k =>
    exact hmild _ ht ((mild_expire k).bind fun _ => trivial)
  | deliver g =>
    exact hmild _ ht ⟨trivial, fun _ => trivial⟩

theorem good_tasks (hash : String → String) (store : StoreKind) (gateways : Nat)
    (connections : AList fun _ : String => Connection) (clock : Time) (tasks : Tasks) :
    Pool.Good exec G Inv (Rely (connectionOf tasks)) (fun i w _ => ∀ c, connectionOf tasks i = some c → Free c w)
      (State.ofTasks hash (World.init store gateways connections clock) tasks) := by
  refine Pool.good_start Rely.refl (inv_init store gateways connections clock) (Pool.forall_map fun i t ht => ?_)
  refine sound_task (apart_tasks tasks) hash store gateways connections clock t ?_
  rw [connectionOf, ht, Option.bind_some]

end Named

/-- At most one session names a connection, throughout a run, exactly if every
session goes to a connection that no other session names; and then a connection
that has been closed is named by none. -/
theorem connection_named_once_iff (hash : String → String) (store : StoreKind) (gateways : Nat)
    (connections : AList fun _ : String => Connection) (clock : Time) (tasks : Tasks) (sched : List (Nat × Env)) :
    let s := State.ofTasks hash (World.init store gateways connections clock) tasks
    (Pool.Along exec (fun s a => NamedOnce (Pool.step exec s a).world) s sched ↔ Pool.Along exec (Pool.Issues Single) s sched) ∧
    (Pool.Along exec (Pool.Issues Single) s sched → Pool.Along exec (Pool.Issues fun _ => Healthy) s sched →
      ∀ i m connectionID messages answer, tasks.list[i]? = some (.handle m connectionID messages) →
        (Pool.run exec s sched).answer i = some answer → ∀ sid, ¬ Names (Pool.run exec s sched).world sid connectionID) := by
  intro s
  have hinit : NamedOnce s.world := by
    rintro _ _ sid _ ⟨r, hr, -⟩
    cases hr
  refine ⟨Pool.inv_run_iff single_iff hinit sched, ?_⟩
  intro hsingle hhealthy i m connectionID messages answer htask hanswer
  have hG : Pool.Along exec (Pool.Issues Named.G) s sched :=
    (hsingle.and hhealthy).mono fun _ _ h c k hp => ⟨h.1 c k hp, h.2 c k hp⟩
  have hgood := Pool.safe_run Named.Rely.refl Named.Rely.trans
    (Named.good_tasks hash store gateways connections clock tasks) hG
  obtain ⟨w, hfree, hrely⟩ := hgood.ret i answer (Pool.answer_eq_some hanswer)
  have hconn : Named.connectionOf tasks i = some connectionID := by
    rw [Named.connectionOf, htask, Option.bind_some, Task.connection?]
  exact (hfree connectionID hconn).rely hconn hrely

def loginSched (sid token : String) : List (Nat × Env) :=
  Pool.inOrder [0] ++ [(0, { id := sid }), (0, { id := token })] ++ Pool.inOrder (List.replicate 5 0)

def closeSched : List (Nat × Env) := Pool.inOrder (List.replicate 7 0)

theorem connection_named_once_login :
    let tasks : Tasks := ⟨[.handle gateway1 "c1" [.login "alice" "player-1"]], by decide, by decide⟩
    let s := State.ofTasks id (World.init .redis 1 ∅ 0) tasks
    let sched := loginSched drawn1 drawn2 ++ closeSched
    (Pool.run exec s sched).answer 0 = some (.ok .done) ∧
      ¬ Names (Pool.run exec s sched).world drawn1 "c1" := by
  intro tasks s sched
  have hdone : (Pool.run exec s sched).answer 0 = some (.ok .done) := by decide +kernel
  exact ⟨hdone, (connection_named_once_iff id .redis 1 ∅ 0 tasks sched).2 (by decide +kernel) (by decide +kernel) 0 gateway1 "c1" _ _
    rfl hdone _⟩

theorem second_login_leaves_first :
    let tasks : Tasks :=
      ⟨[.handle gateway1 "c1" [.login "alice" "player-1", .login "bob" "player-2"]], by decide, by decide⟩
    let s := State.ofTasks id (World.init .redis 1 ∅ 0) tasks
    let logins := loginSched drawn1 drawn2 ++
      loginSched drawn3 drawn4
    Pool.Along exec (Pool.Issues fun _ => Healthy) s (logins ++ closeSched) ∧
      Names (Pool.run exec s logins).world drawn1 "c1" ∧
      Names (Pool.run exec s logins).world drawn3 "c1" ∧
      (Pool.run exec s (logins ++ closeSched)).answer 0 = some (.ok .done) ∧
      Names (Pool.run exec s (logins ++ closeSched)).world drawn1 "c1" := by
  decide +kernel

end GameServer.Gateway
