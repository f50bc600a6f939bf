import GameServer.SessionSound

/-!
# A disconnect that comes too late

A resume may take the session over while a disconnect of the old connection is
under way. Once it has, the disconnect has no further effect exactly when it
has not read the record before: after a read it goes on to release the
account, to clear the tables and to report the session as disconnected, because
the answer of its swap is dropped.
-/

namespace GameServer.Gateway

open Pool (Past Visited)

def Superseded (sid : String) (epoch : Nat) (w : World) : Prop :=
  ∃ r, w.kept (.session sid) = some r ∧ epoch < r.connectionEpoch

def isSwap : Handler → Bool
  | .call (.compareAndSwap _ _) _ => true
  | _ => false

def Swapping (i : Nat) (s : State) : Prop := s.procs[i]?.any isSwap = true

instance (i : Nat) (s : State) : Decidable (Swapping i s) := inferInstanceAs (Decidable (_ = true))

def Still (i : Nat) (s : State) (a : Nat × Env) : Prop :=
  a.1 = i → ∃ t, (Pool.step exec s a).world = { s.world with clock := t } ∧ (a.2.delay = 0 → t = s.world.clock)

/-- The run is as if handler `i` had not been called: it changes nothing but the
time, and if it takes none, the world is the one without its steps. -/
def Harmless (i : Nat) (s : State) (sched : List (Nat × Env)) : Prop :=
  Pool.Along exec (Still i) s sched ∧
    ((∀ a ∈ sched, a.1 = i → a.2.delay = 0) →
      (Pool.run exec s sched).world = (Pool.run exec s (sched.filter (·.1 ≠ i))).world)

theorem harmless_of_still {i : Nat} {s : State} {sched : List (Nat × Env)} (h : Pool.Along exec (Still i) s sched) :
    Harmless i s sched := by
  refine ⟨h, fun htime => ?_⟩
  have hzero : Pool.Along exec (fun _ a => a.1 = i → a.2.delay = 0) s sched :=
    Pool.along_of_mem exec sched s fun _ a ha => htime a ha
  have hself : Pool.AgreeOff i s s := ⟨rfl, fun _ _ => rfl⟩
  refine (Pool.run_filter sched hself ((h.and hzero).mono fun s a ha hi => ?_)).world
  obtain ⟨t, hw, ht⟩ := ha.1 hi
  rw [hw, ht (ha.2 hi)]

/-! ## The disconnect, step by step -/

theorem disconnect_eq (hash : String → String) (m : Manager) (sid conn : String) (now : Time) (epoch : Nat) :
    ∃ k : Except GoErr Record → Handler,
      Call.handler hash (.disconnect m sid conn now epoch) = .call (.get sid) k ∧
      (∀ err, k (.error err) = .ret (.error err)) ∧
      (∀ r, (conn ≠ "" ∧ r.connectionID ≠ conn) ∨ (epoch ≠ 0 ∧ r.connectionEpoch ≠ epoch) → k (.ok r) = .ret (.ok .done)) ∧
      ∀ r, (conn = "" ∨ r.connectionID = conn) → (epoch = 0 ∨ r.connectionEpoch = epoch) →
        ∃ (swap : Except GoErr Bool → Handler) (release : Except GoErr Unit → Handler) (leave emit : Unit → Handler),
          k (.ok r) = .call (.compareAndSwap r
            { r with state := .reconnecting, connectionID := "", expireAt := now + m.reconnectGrace }) swap ∧
          (∀ b, swap (.ok b) = .call (.releaseAccount r.accountID r.connectionID) release) ∧
          release (.ok ()) = .call (.leave m.index r.accountID sid) leave ∧
          leave () = .call (.emit (lifecycleEvent .disconnected r now)) emit := by
  simp only [Call.handler, disconnect, perform, emitLifecycle, Prog.perform_bind, Prog.call_bind]
  refine ⟨_, rfl, fun err => rfl, fun r hr => ?_, fun r hconn hepoch => ?_⟩
  · by_cases h : conn ≠ "" ∧ r.connectionID ≠ conn
    · simp only [if_pos h, Prog.pure_eq, Prog.ret_bind, Except.map]
    · simp only [if_neg h, if_pos (hr.resolve_left h), Prog.pure_eq, Prog.ret_bind, Except.map]
  · have h₁ : ¬(conn ≠ "" ∧ r.connectionID ≠ conn) := by tauto
    have h₂ : ¬(epoch ≠ 0 ∧ r.connectionEpoch ≠ epoch) := by tauto
    simp only [if_neg h₁, if_neg h₂, Prog.call_bind]
    exact ⟨_, _, _, _, rfl, fun _ => rfl, rfl, rfl⟩

section
variable {i : Nat} {start : Handler} {sid : String} {k : Except GoErr Record → Handler} {mine : Record → Prop}

def Early (i : Nat) (start : Handler) (s : State) : Prop :=
  s.procs[i]? = some start ∨ ∃ a, s.procs[i]? = some (.ret a)

def AtSwap (i : Nat) (k : Except GoErr Record → Handler) (mine : Record → Prop) (s : State) : Prop :=
  ∃ r, mine r ∧ s.procs[i]? = some (k (.ok r))

theorem exec_get_eq (i : Nat) (e : Env) (w : World) (id : String) :
    ∃ r, exec i e w (.get id) = some (r, { w with clock := w.clock + e.delay }) := by
  unfold exec
  cases e.fail with
  | none => exact ⟨_, rfl⟩
  | some text => exact ⟨_, rfl⟩

theorem step_early (mine : Record → Prop) (hstart : start = .call (.get sid) k) (herr : ∀ err, k (.error err) = .ret (.error err))
    {s : State} (hread : ∀ r, s.world.lookup (s.world.key sid) = some r → mine r ∨ k (.ok r) = .ret (.ok .done))
    (h : Early i start s) (a : Nat × Env) :
    Still i s a ∧ (Early i start (Pool.step exec s a) ∨ AtSwap i k mine (Pool.step exec s a)) := by
  by_cases ha : a.1 = i
  · obtain ⟨i', e⟩ := a
    cases ha
    rcases h with h | ⟨b, h⟩
    · obtain ⟨r, hx⟩ := exec_get_eq i' e s.world sid
      obtain ⟨hw, hp⟩ := Pool.step_of_exec exec (hstart ▸ h) hx
      refine ⟨fun _ => ⟨_, hw, fun hd => by rw [show e.delay = 0 from hd]; rfl⟩, ?_⟩
      cases r with
      | error err => exact .inl (.inr ⟨_, herr err ▸ hp⟩)
      | ok r =>
        rcases hread r (exec_get hx).2 with hmine | hret
        · exact .inr ⟨r, hmine, hp⟩
        · exact .inl (.inr ⟨_, hret ▸ hp⟩)
    · rw [Pool.step_of_ret exec (a := (i', e)) h]
      exact ⟨fun _ => ⟨_, by rw [Pool.step_of_ret exec (a := (i', e)) h], fun _ => rfl⟩, .inl (.inr ⟨b, h⟩)⟩
  · refine ⟨fun h => absurd h ha, .inl ?_⟩
    unfold Early
    rw [Pool.procs_step_of_ne exec ha]
    exact h

theorem run_early (hstart : start = .call (.get sid) k) (herr : ∀ err, k (.error err) = .ret (.error err))
    (hswap : ∀ r, mine r → isSwap (k (.ok r)) = true) :
    ∀ (as : List (Nat × Env)) (s : State), Early i start s ∨ AtSwap i k mine s →
      Pool.Along exec (fun s _ => ∀ r, s.world.lookup (s.world.key sid) = some r →
        mine r ∨ k (.ok r) = .ret (.ok .done)) s as →
      Pool.Along exec (fun s a => a.1 = i → ¬Swapping i s) s as →
      Pool.Along exec (Still i) s as ∧
        (Early i start (Pool.run exec s as) ∨ AtSwap i k mine (Pool.run exec s as))
  | [], _, h, _, _ => ⟨trivial, h⟩
  | a :: as, s, h, hread, hfree => by
    have hstep : Still i s a ∧ (Early i start (Pool.step exec s a) ∨ AtSwap i k mine (Pool.step exec s a)) := by
      rcases h with h | ⟨r, hmine, h⟩
      · exact step_early mine hstart herr hread.1 h a
      · have ha : a.1 ≠ i := by
          intro ha
          refine hfree.1 ha ?_
          rw [Swapping, h, Option.any_some, hswap r hmine]
        exact ⟨fun h => absurd h ha, .inr ⟨r, hmine, (Pool.procs_step_of_ne exec ha).trans h⟩⟩
    obtain ⟨h₁, h₂⟩ := run_early hstart herr hswap as _ hstep.2 hread.2 hfree.2
    exact ⟨⟨hstep.1, h₁⟩, h₂⟩

theorem run_early_other (hstart : start = .call (.get sid) k) (herr : ∀ err, k (.error err) = .ret (.error err)) :
    ∀ (as : List (Nat × Env)) (s : State), Early i start s →
      Pool.Along exec (fun s _ => ∀ r, s.world.lookup (s.world.key sid) = some r → k (.ok r) = .ret (.ok .done)) s as →
      Pool.Along exec (Still i) s as
  | [], _, _, _ => trivial
  | a :: as, s, h, hread => by
    obtain ⟨hstill, h | ⟨_, hfalse, _⟩⟩ :=
      step_early (fun _ => False) hstart herr (fun r hr => .inr (hread.1 r hr)) h a
    · exact ⟨hstill, run_early_other hstart herr as _ h hread.2⟩
    · exact hfalse.elim

end

theorem compareAndSwap_stale {w : World} (e : Env) {expected r : Record} (updated : Record) {sid : String}
    (hid : isRandomID sid = true) (hexpected : expected.sessionID = sid) (hupdated : updated.sessionID = sid)
    (httl : w.ttl e updated ≠ 0) (hr : w.kept (.session sid) = some r) (hne : r ≠ expected) :
    w.compareAndSwap e expected updated = .ok (false, w) := by
  unfold World.compareAndSwap
  rw [hupdated, key_of_isRandomID hid, hexpected]
  cases hstore : w.store with
  | memory =>
    have hlookup : w.lookup (.session sid) = some r := by
      unfold World.kept at hr
      obtain ⟨entry, hentry, rfl⟩ := Option.map_eq_some_iff.mp hr
      simp only [World.lookup, hentry, hstore, reduceCtorEq, false_and, if_false]
    simp only [hlookup, if_neg hne]
  | redis =>
    have hlookup : w.lookup (.session sid) ≠ some expected := fun h =>
      hne (Option.some.inj (hr.symm.trans (kept_of_lookup h)))
    simp only [if_neg httl, if_pos hlookup]

theorem not_still_of_stale {i : Nat} {s : State} {m : Manager} {sid : String} {now : Time} {r r' : Record}
    {swap : Except GoErr Bool → Handler} {release : Except GoErr Unit → Handler} {leave emit : Unit → Handler}
    (hid : isRandomID sid = true) (hgrace : 0 < now + m.reconnectGrace) (hsid : r.sessionID = sid)
    (hr' : s.world.kept (.session sid) = some r') (hne : r' ≠ r)
    (hp : s.procs[i]? = some (.call (.compareAndSwap r
      { r with state := .reconnecting, connectionID := "", expireAt := now + m.reconnectGrace }) swap))
    (hswap : ∀ b, swap (.ok b) = .call (.releaseAccount r.accountID r.connectionID) release)
    (hrelease : release (.ok ()) = .call (.leave m.index r.accountID sid) leave)
    (hleave : leave () = .call (.emit (lifecycleEvent .disconnected r now)) emit) :
    ¬Pool.Along exec (Still i) s [(i, { lag := s.world.clock }), (i, {}), (i, {}), (i, {})] := by
  rintro ⟨-, -, -, hstill, -⟩
  have hstale := compareAndSwap_stale { lag := s.world.clock }
    { r with state := .reconnecting, connectionID := "", expireAt := now + m.reconnectGrace }
    hid hsid hsid (by simp only [World.ttl, Nat.sub_self, Nat.sub_zero]; exact Nat.ne_of_gt hgrace) hr' hne
  have hx₁ : exec i { lag := s.world.clock } s.world (.compareAndSwap r
      { r with state := .reconnecting, connectionID := "", expireAt := now + m.reconnectGrace }) =
      some (.ok false, s.world) :=
    congrArg (fun x => some (commitWith s.world x)) hstale
  obtain ⟨-, hp₁⟩ := Pool.step_of_exec exec hp hx₁
  rw [hswap] at hp₁
  obtain ⟨-, hp₂⟩ := Pool.step_of_exec exec (e := {}) hp₁ rfl
  rw [hrelease] at hp₂
  obtain ⟨-, hp₃⟩ := Pool.step_of_exec exec (e := {}) hp₂ rfl
  rw [hleave] at hp₃
  obtain ⟨hw₄, -⟩ := Pool.step_of_exec exec (e := {}) hp₃ rfl
  obtain ⟨t, hw, -⟩ := hstill rfl
  have hevents := congrArg World.events (hw₄.symm.trans hw)
  simp at hevents

/-! ## Runs -/

section
variable (hash : String → String) (store : StoreKind) (gateways : Nat)
  (connections : AList fun _ : String => Connection) (clock : Time) (calls : List Call)

theorem read_session {sid : String} (hid : isRandomID sid = true) (sched : List (Nat × Env)) {r : Record} :
    let w := (Pool.run exec (State.init hash (World.init store gateways connections clock) calls) sched).world
    w.lookup (w.key sid) = some r → r.sessionID = sid ∧ w.kept (.session sid) = some r := by
  intro w hr
  obtain ⟨p, hp, hi, -⟩ := exists_past hash store gateways connections clock calls sched
  rw [key_of_isRandomID hid] at hr
  have hkept := kept_of_lookup hr
  have hfits := hi.fits (.session sid) r (by rw [hp]; exact hkept)
  exact ⟨hfits.1, hkept⟩

theorem isRandomID_of_kept {sid : String} (sched : List (Nat × Env)) {r : Record}
    (hr : (Pool.run exec (State.init hash (World.init store gateways connections clock) calls) sched).world.kept
      (.session sid) = some r) : isRandomID sid = true := by
  obtain ⟨p, hp, hi, -⟩ := exists_past hash store gateways connections clock calls sched
  have hfits := hi.fits (.session sid) r (by rw [hp]; exact hr)
  exact hfits.2

theorem superseded_append {sid : String} {epoch : Nat} (pre post : List (Nat × Env)) {r : Record} :
    let s₀ := State.init hash (World.init store gateways connections clock) calls
    Superseded sid epoch (Pool.run exec s₀ pre).world →
      (Pool.run exec s₀ (pre ++ post)).world.kept (.session sid) = some r → epoch < r.connectionEpoch := by
  rintro s₀ ⟨r₀, hr₀, hlt⟩ hr
  obtain ⟨p, hp, hi, -, -, -, hsup⟩ := exists_past hash store gateways connections clock calls (pre ++ post)
  exact Nat.lt_of_lt_of_le hlt
    (hi.grows _ (Pool.visited_of_append post pre hp hsup) sid r₀ r hr₀ (hp ▸ hr))

end

/-- When a resume has taken the session to a later epoch and the disconnect of
the old connection has not made its swap: whatever follows, the disconnect has
no effect, exactly if it has not read the record of the old connection. -/
theorem disconnect_harmless_iff (hash : String → String) (store : StoreKind)
    (gateways : Nat) (connections : AList fun _ : String => Connection) (clock : Time) (calls : List Call) (i : Nat)
    (m : Manager) (sid conn : String) (now : Time) (epoch : Nat)
    (hcall : calls[i]? = some (.disconnect m sid conn now epoch)) (hepoch : epoch ≠ 0)
    (hgrace : 0 < now + m.reconnectGrace) (pre : List (Nat × Env)) :
    let s₀ := State.init hash (World.init store gateways connections clock) calls
    Pool.Along exec (fun s a => a.1 = i → ¬Swapping i s) s₀ pre →
    Superseded sid epoch (Pool.run exec s₀ pre).world →
    ((∀ post, Harmless i s₀ (pre ++ post)) ↔ ¬Swapping i (Pool.run exec s₀ pre)) := by
  intro s₀ hfree hsup
  obtain ⟨k, hstart, herr, hother, hmine⟩ := disconnect_eq hash m sid conn now epoch
  obtain ⟨r', hr', hlt⟩ := hsup
  have hid := isRandomID_of_kept hash store gateways connections clock calls pre hr'
  have hprocs : s₀.procs[i]? = some (Call.handler hash (.disconnect m sid conn now epoch)) := by
    rw [show s₀.procs = calls.map (Call.handler hash) from rfl, List.getElem?_map, hcall, Option.map_some]
  -- the records that the disconnect takes for its own
  let mine (r : Record) : Prop := (conn = "" ∨ r.connectionID = conn) ∧ (epoch = 0 ∨ r.connectionEpoch = epoch) ∧
    r.sessionID = sid
  have hswap : ∀ r, mine r → isSwap (k (.ok r)) = true := by
    rintro r ⟨h₁, h₂, -⟩
    obtain ⟨swap, -, -, -, hk, -⟩ := hmine r h₁ h₂
    rw [hk, isSwap]
  have hread : Pool.Along exec (fun s _ => ∀ r, s.world.lookup (s.world.key sid) = some r →
      mine r ∨ k (.ok r) = .ret (.ok .done)) s₀ pre := by
    refine Pool.along_of_split exec pre s₀ fun as a bs _ r hr => ?_
    have hsid := (read_session hash store gateways connections clock calls hid as hr).1
    by_cases h₁ : conn = "" ∨ r.connectionID = conn
    · by_cases h₂ : epoch = 0 ∨ r.connectionEpoch = epoch
      · exact .inl ⟨h₁, h₂, hsid⟩
      · exact .inr (hother r (.inr (not_or.mp h₂)))
    · exact .inr (hother r (.inl (not_or.mp h₁)))
  obtain ⟨hstill, hphase⟩ := run_early hstart herr hswap pre s₀ (.inl (.inl hprocs)) hread hfree
  constructor
  · intro hall hswapping
    rcases hphase with (h | ⟨b, h⟩) | ⟨r, hr, h⟩
    · rw [Swapping, h, hstart] at hswapping
      cases hswapping
    · rw [Swapping, h] at hswapping
      cases hswapping
    · obtain ⟨swap, release, leave, emit, hk, h₁, h₂, h₃⟩ := hmine r hr.1 hr.2.1
      have hne : r' ≠ r := by
        rintro rfl
        exact Nat.ne_of_gt hlt (hr.2.1.resolve_left hepoch)
      exact not_still_of_stale hid hgrace hr.2.2 hr' hne (hk ▸ h) h₁ h₂ h₃
        ((Pool.along_append exec pre _ s₀).mp (hall _).1).2
  · intro hnot post
    refine harmless_of_still ((Pool.along_append exec pre post s₀).mpr ⟨hstill, ?_⟩)
    have hearly : Early i (Call.handler hash (.disconnect m sid conn now epoch)) (Pool.run exec s₀ pre) := by
      refine hphase.resolve_right ?_
      rintro ⟨r, hr, h⟩
      refine hnot ?_
      rw [Swapping, h, Option.any_some, hswap r hr]
    refine run_early_other hstart herr post _ hearly (Pool.along_of_split exec post _ fun as a bs _ r hr => ?_)
    rw [← Pool.run_append] at hr
    have hkept := (read_session hash store gateways connections clock calls hid (pre ++ as) hr).2
    have hlater := superseded_append hash store gateways connections clock calls pre as ⟨r', hr', hlt⟩ hkept
    exact hother r (.inr ⟨hepoch, Nat.ne_of_gt hlater⟩)

/-! ## Both orders -/

def lateDisconnect : List Call :=
  [.login gateway1 "c1" "account" "player", .disconnect gateway1 drawn1 "c1" 5 1,
    .resume gateway1 drawn1 drawn2 "c2" 5]

def lateLogin : List (Nat × Env) :=
  [(0, {}), (0, { id := drawn1 }), (0, { id := drawn2 }),
    (0, {}), (0, {}), (0, {}), (0, {}), (0, {})]

def lateResume : List (Nat × Env) :=
  [(2, {}), (2, { id := drawn3 }), (2, {}), (2, {}), (2, {}), (2, {}), (2, {}), (2, {}),
    (2, {})]

def resumedRecord : Record where
  sessionID := drawn1
  accountID := "account"
  playerID := "player"
  gatewayInstanceID := "gateway-1"
  connectionID := "c2"
  connectionEpoch := 2
  state := .authenticated
  resumeTokenHash := drawn3
  expireAt := 3600000000005

theorem disconnect_harmless_after_resume :
    let s₀ := State.init id (World.init .redis 1 ∅ 0) lateDisconnect
    ¬Swapping 1 (Pool.run exec s₀ (lateLogin ++ lateResume)) ∧
      Harmless 1 s₀ ((lateLogin ++ lateResume) ++ Pool.inOrder [1, 1, 1]) := by
  intro s₀
  have hnot : ¬Swapping 1 (Pool.run exec s₀ (lateLogin ++ lateResume)) := by decide
  refine ⟨hnot, (disconnect_harmless_iff id .redis 1 ∅ 0 lateDisconnect 1
    gateway1 drawn1 "c1" 5 1 rfl (by decide) (by decide)
    (lateLogin ++ lateResume) (Pool.along_of_mem exec _ _ fun _ a ha h => ?_) ⟨resumedRecord, by decide, by decide⟩).mpr hnot _⟩
  have hpids : ∀ n ∈ (lateLogin ++ lateResume).map (·.1), n ≠ 1 := by decide
  exact absurd h (hpids _ (List.mem_map_of_mem ha))

/-- The resume comes between the read and the swap of the disconnect: it has
returned, and yet its connection leaves the tables and the session is reported
as disconnected. -/
theorem disconnect_undoes_resume :
    let s₀ := State.init id (World.init .redis 1 ∅ 0) lateDisconnect
    let pre := lateLogin ++ Pool.inOrder [1] ++ lateResume
    let sched := pre ++ Pool.inOrder [1, 1, 1, 1, 1]
    let s := Pool.run exec s₀ sched
    let s' := Pool.run exec s₀ (sched.filter (·.1 ≠ 1))
    Swapping 1 (Pool.run exec s₀ pre) ∧
    (((Pool.run exec s₀ pre).world.lookup (.session drawn1)).map (·.connectionEpoch) = some 2) ∧
    (∃ c, (Pool.run exec s₀ pre).answer 2 = some (.ok (.created c)) ∧ c.record.connectionID = "c2") ∧
    (s.world.tables 0).connections.lookup "c2" = none ∧
    (s'.world.tables 0).connections.lookup "c2" = some drawn1 ∧
    (s.world.tables 0).accountConnections.lookup "account" = none ∧
    (s'.world.tables 0).accountConnections.lookup "account" = some "c2" ∧
    s.world.events.map (·.type) = [.connected, .preempted, .resumed, .disconnected] ∧
    s'.world.events.map (·.type) = [.connected, .preempted, .resumed] := by
  intro s₀ pre sched s s'
  have hcreated : (Pool.run exec s₀ pre).answer 2 = some (.ok (.created ⟨resumedRecord, drawn3⟩)) := by decide +kernel
  exact ⟨by decide +kernel, by decide +kernel, ⟨_, hcreated, rfl⟩, by decide +kernel⟩

end GameServer.Gateway
