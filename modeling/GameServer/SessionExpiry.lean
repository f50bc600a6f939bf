import GameServer.SessionDisconnect

/-!
# An expiry that meets a resume

An expiry reads the record of its session, checks it and deletes the session,
whatever has become of the record meanwhile. A resume that swaps the record
before the read, or after the delete, is not disturbed; one that swaps it in
between is undone.
-/

namespace GameServer.Gateway

def Call.isResume : Call → Bool
  | .resume _ _ _ _ _ | .resumeLogin _ _ _ _ => true
  | _ => false

def isDelete : Handler → Bool
  | .call (.delete _) _ => true
  | _ => false

def isGet : Handler → Bool
  | .call (.get _) _ => true
  | _ => false

def Deleting (i : Nat) (s : State) : Prop := s.procs[i]?.any isDelete = true

instance (i : Nat) (s : State) : Decidable (Deleting i s) := inferInstanceAs (Decidable (_ = true))

def Spares (i : Nat) (sid : String) (s : State) (a : Nat × Env) : Prop :=
  a.1 = i → (Pool.step exec s a).world.events = s.world.events ∧
    ((Pool.step exec s a).world.kept (.session sid) = none → s.world.kept (.session sid) = none)

def Outlives (i : Nat) (sid : String) (s : State) (a : Nat × Env) : Prop :=
  a.1 = i → s.procs[i]?.any isGet = true → World.lookup { s.world with clock := s.world.clock + a.2.delay } (.session sid) ≠ none

instance (i : Nat) (sid : String) (s : State) (a : Nat × Env) : Decidable (Outlives i sid s a) :=
  inferInstanceAs (Decidable (_ → _ → _))

namespace Expiry

variable {hash : String → String} {sid : String} {epoch i x k : Nat} {e : Env} {w w' : World} {c : Cmd} {s : State}
  {a : Nat × Env} {d : Record}

/-! ## The commands of a resume -/

def Mild : Cmd → Prop
  | .create _ | .delete _ | .releaseAccount _ _ | .schedule _ _ | .fire _ | .leave _ _ _ | .deliver _ => False
  | .compareAndSwap expected updated =>
    updated.sessionID = expected.sessionID ∧ expected.connectionEpoch ≤ updated.connectionEpoch
  | _ => True

theorem uses_resume (m : Manager) (sessionID token connectionID : String) (now : Time) :
    (resume hash m sessionID token connectionID now).Uses Mild := by
  unfold resume
  simp only [perform, Prog.perform_bind]
  refine ⟨trivial, fun r => ?_⟩
  cases r with
  | error err => trivial
  | ok expected =>
    dsimp only
    split
    · exact ⟨⟨rfl, Nat.le_refl _⟩, fun _ => trivial⟩
    split
    · trivial
    refine ⟨trivial, fun r => ?_⟩
    cases r with
    | error err => trivial
    | ok next =>
      refine ⟨⟨rfl, Nat.le_succ _⟩, fun r => ?_⟩
      cases r with
      | error err => trivial
      | ok swapped =>
        cases swapped with
        | false => trivial
        | true =>
          refine ⟨trivial, fun r => ?_⟩
          cases r with
          | error err => trivial
          | ok claimed => exact ⟨trivial, fun _ => uses_preempt_emit (fun _ _ => trivial) (fun _ => trivial) (fun _ => trivial) ..⟩

theorem uses_handler {call : Call} (h : call.isResume = true) : (call.handler hash).Uses Mild := by
  cases call with
  | resume m sessionID token connectionID now => exact (uses_resume ..).bind fun _ => trivial
  | resumeLogin m connectionID sessionID token =>
    simp only [Call.handler, resumeLogin]
    split
    · trivial
    refine ⟨trivial, fun now => (uses_resume ..).bind fun r => ?_⟩
    cases r with
    | error err => trivial
    | ok c => exact ⟨trivial, fun _ => trivial⟩
  | _ => cases h

inductive Mildly (sid : String) (w w' : World) : Prop
  | same (hentry : w'.data.lookup (.session sid) = w.data.lookup (.session sid))
  | swap (expected updated : Record) (hold : w.lookup (.session sid) = some expected)
      (hnew : w'.kept (.session sid) = some updated) (hle : expected.connectionEpoch ≤ updated.connectionEpoch)

theorem swap_cases {expected updated : Record} {r : Except GoErr Bool} (hsid : updated.sessionID = expected.sessionID)
    (h : commitWith w (w.compareAndSwap e expected updated) = (r, w')) :
    w' = w ∨ ∃ key deadline, w.lookup key = some expected ∧ w' = w.put key updated deadline := by
  unfold World.compareAndSwap at h
  split at h
  · split at h
    · cases h
      exact .inl rfl
    · rename_i current hcurrent
      split at h
      · rename_i heq
        cases h
        exact .inr ⟨_, _, by rw [hsid, hcurrent, heq], rfl⟩
      · cases h
        exact .inl rfl
  · split at h
    · cases h
      exact .inl rfl
    split at h
    · cases h
      exact .inl rfl
    rename_i hcurrent
    split at h
    · cases h
      exact .inl rfl
    · cases h
      exact .inr ⟨_, _, not_not.mp hcurrent, rfl⟩

structure Around (w w' : World) : Prop where
  timers : w'.timers = w.timers
  store : w'.store = w.store
  clock : w.clock ≤ w'.clock

variable (sid) in
theorem mild_answer (hc : Mild c) {r : Ans c} (h : w.answer i e c = some (r, w')) : Around w w' ∧ Mildly sid w w' := by
  cases c with
  | create _ | delete _ | releaseAccount _ _ | schedule _ _ | fire _ | leave _ _ _ | deliver _ => exact hc.elim
  | now | get _ | enter _ _ _ _ | emit _ | publish _ =>
    cases h
    exact ⟨⟨rfl, rfl, Nat.le_refl _⟩, .same rfl⟩
  | randomID =>
    simp only [World.answer] at h
    split at h
    · cases h
      exact ⟨⟨rfl, rfl, Nat.le_refl _⟩, .same rfl⟩
    · cases h
  | preempt g n =>
    obtain ⟨connections, heq⟩ := preempt_eq w g n
    simp only [World.answer, heq] at h
    cases h
    exact ⟨⟨rfl, rfl, Nat.le_refl _⟩, .same rfl⟩
  | bindSession connectionID sessionID n =>
    obtain ⟨connections, heq⟩ := bindSession_eq w connectionID sessionID n
    simp only [World.answer, heq] at h
    cases h
    exact ⟨⟨rfl, rfl, Nat.le_refl _⟩, .same rfl⟩
  | claimAccount accountID rec =>
    rcases answer_claimAccount h with rfl | ⟨deadline, rfl⟩
    · exact ⟨⟨rfl, rfl, Nat.le_refl _⟩, .same rfl⟩
    · exact ⟨⟨rfl, rfl, Nat.le_refl _⟩, .same (AList.lookup_insert_ne (session_ne_account sid _))⟩
  | compareAndSwap expected updated =>
    simp only [World.answer, Option.some.injEq] at h
    rcases swap_cases hc.1 h with rfl | ⟨key, deadline, hold, rfl⟩
    · exact ⟨⟨rfl, rfl, Nat.le_refl _⟩, .same rfl⟩
    · refine ⟨⟨rfl, rfl, Nat.le_refl _⟩, ?_⟩
      by_cases hk : key = .session sid
      · exact .swap expected updated (hk ▸ hold) (by rw [kept_put, if_pos hk.symm]) hc.2
      · exact .same (AList.lookup_insert_ne fun h => hk h.symm)

variable (sid) in
theorem mild_exec (hc : Mild c) {r : Ans c} (h : exec i e w c = some (r, w')) : Around w w' ∧ Mildly sid w w' := by
  have hle : w.clock ≤ w.clock + e.delay := Nat.le_add_right ..
  rcases exec_cases h with h | ⟨-, rfl⟩
  · obtain ⟨⟨ht, hs, hclock⟩, hm⟩ := mild_answer sid hc h
    refine ⟨⟨ht, hs, Nat.le_trans hle hclock⟩, ?_⟩
    cases hm with
    | same hentry => exact .same hentry
    | swap expected updated hold hnew hepoch => exact .swap expected updated (lookup_of_later hold) hnew hepoch
  · exact ⟨⟨rfl, rfl, hle⟩, .same rfl⟩

/-! ## The commands of an expiry -/

theorem lookup_none_of_same (ha : Around w w') (hentry : w'.data.lookup (.session sid) = w.data.lookup (.session sid))
    (h : w.lookup (.session sid) = none) : w'.lookup (.session sid) = none := by
  unfold World.lookup at h ⊢
  rw [hentry, ha.store]
  split
  · rfl
  · rename_i entry hdata
    simp only [hdata] at h
    split at h
    · rename_i hgone
      exact if_pos ⟨hgone.1, Nat.le_trans hgone.2 ha.clock⟩
    · cases h

theorem lookup_none_of_data (h : w.data.lookup (.session sid) = none) : w.lookup (.session sid) = none := by
  simp only [World.lookup, h]

theorem gone_mild (ha : Around w w') (hm : Mildly sid w w') (h : w.lookup (.session sid) = none) :
    w'.lookup (.session sid) = none := by
  cases hm with
  | same hentry => exact lookup_none_of_same ha hentry h
  | swap expected updated hold => exact nomatch h.symm.trans hold

theorem superseded_mild (hm : Mildly sid w w') (h : Superseded sid epoch w) : Superseded sid epoch w' := by
  obtain ⟨r, hr, hlt⟩ := h
  cases hm with
  | same hentry => exact ⟨r, by rw [World.kept, hentry]; exact hr, hlt⟩
  | swap expected updated hold hnew hle =>
    obtain rfl := Option.some.inj ((kept_of_lookup hold).symm.trans hr)
    exact ⟨updated, hnew, Nat.lt_of_lt_of_le hlt hle⟩

def Expires : Cmd → Prop
  | .fire _ | .now | .get _ | .delete _ | .releaseAccount _ _ | .emit _ => True
  | _ => False

theorem gone_releaseAccount {accountID connectionID : String} (h : w.lookup (.session sid) = none) :
    (w.releaseAccount accountID connectionID).lookup (.session sid) = none := by
  cases hstore : w.store with
  | memory =>
    have hkept : w.kept (.session sid) = none := by
      unfold World.lookup at h
      unfold World.kept
      split at h
      · rename_i hdata
        rw [hdata, Option.map_none]
      · simp only [hstore, reduceCtorEq, false_and, if_false] at h
    cases hr : (w.releaseAccount accountID connectionID).lookup (.session sid) with
    | none => rfl
    | some r =>
      obtain ⟨r₀, hr₀, -⟩ := kept_releaseAccount (kept_of_lookup hr)
      exact nomatch hkept.symm.trans hr₀
  | redis =>
    simp only [World.releaseAccount, hstore]
    split
    · exact h
    · split
      · exact lookup_none_of_same (w := w) ⟨rfl, hstore.symm, Nat.le_refl _⟩ (AList.lookup_erase_ne (nomatch ·)) h
      · exact h

theorem gone_expires (hc : Expires c) {r : Ans c} (hx : exec i e w c = some (r, w'))
    (h : w.lookup (.session sid) = none) : w'.lookup (.session sid) = none := by
  have htick : World.lookup { w with clock := w.clock + e.delay } (.session sid) = none :=
    lookup_none_of_same (w := w) ⟨rfl, rfl, Nat.le_add_right ..⟩ rfl h
  rcases exec_cases hx with hx | ⟨-, rfl⟩
  · cases c with
    | now | get _ | emit _ =>
      cases hx
      exact htick
    | fire k =>
      obtain ⟨timers, rfl⟩ := fire_eq hx
      exact htick
    | releaseAccount accountID connectionID =>
      cases hx
      exact gone_releaseAccount htick
    | delete id =>
      cases hx
      by_cases hk : World.key { w with clock := w.clock + e.delay } id = .session sid
      · exact lookup_none_of_data (by simp only [World.delete, hk, AList.lookup_erase])
      · exact lookup_none_of_same (w := { w with clock := w.clock + e.delay }) ⟨rfl, rfl, Nat.le_refl _⟩
          (AList.lookup_erase_ne fun h => hk h.symm) htick
    | _ => exact hc.elim
  · exact htick

theorem keeps_expires (hc : Expires c) {r : Ans c} (hx : exec i e w c = some (r, w')) : Keeps w w' := by
  cases c with
  | delete id => exact keeps_delete hx
  | releaseAccount accountID connectionID => exact keeps_releaseAccount hx
  | now | get _ | emit _ | fire _ =>
    refine (retains_quiet ?_ hx).toKeeps
    trivial
  | _ => exact hc.elim

theorem uses_expire (k : Nat) : (Call.handler hash (.expire k)).Uses Expires := by
  have hemit : ∀ type r now, (emitLifecycle type r now).Uses Expires := fun _ _ _ => ⟨trivial, fun _ => trivial⟩
  simp only [Call.handler, expire, perform, Prog.perform_bind, Prog.call_bind]
  refine ⟨trivial, fun d => ⟨trivial, fun now => ⟨trivial, fun r => ?_⟩⟩⟩
  refine Prog.Uses.bind ?_ fun _ => trivial
  cases r with
  | error err =>
    dsimp only
    split
    · exact hemit _ _ _
    · trivial
  | ok record =>
    dsimp only
    split
    · trivial
    refine ⟨trivial, fun r => ?_⟩
    cases r with
    | error err => trivial
    | ok => exact ⟨trivial, fun _ => hemit _ _ _⟩

theorem expire_eq (hash : String → String) (k : Nat) :
    ∃ got : Record → Time → Except GoErr Record → Handler,
      Call.handler hash (.expire k) =
        .call (.fire k) (fun d => .call .now fun now => .call (.get d.sessionID) (got d now)) ∧
      (∀ d now err, err.is errNotFound = false → got d now (.error err) = .ret (.ok .done)) ∧
      (∀ d now r, r.connectionEpoch ≠ d.connectionEpoch → got d now (.ok r) = .ret (.ok .done)) ∧
      ∀ d now r, got d now (.ok r) = .ret (.ok .done) ∨ ∃ rest : Except GoErr Unit → Handler,
        got d now (.ok r) = .call (.delete d.sessionID) rest ∧ ∀ err, rest (.error err) = .ret (.ok .done) := by
  simp only [Call.handler, expire, perform, Prog.perform_bind, Prog.call_bind]
  refine ⟨_, rfl, fun d now err herr => ?_, fun d now r hr => ?_, fun d now r => ?_⟩
  · simp only [herr]
    rfl
  · simp only [if_pos (Or.inr (Or.inl hr)), Prog.pure_eq, Prog.ret_bind]
  · by_cases hcheck : r.state ≠ .reconnecting ∨ r.connectionEpoch ≠ d.connectionEpoch ∨ now < r.expireAt
    · exact .inl (by simp only [if_pos hcheck, Prog.pure_eq, Prog.ret_bind])
    · simp only [if_neg hcheck, Prog.call_bind]
      exact .inr ⟨_, rfl, fun _ => rfl⟩

/-! ## The expiry among resumes -/

def Part (x i : Nat) (c : Cmd) : Prop := (i = x → Expires c) ∧ (i ≠ x → Mild c)

theorem allUse_init {calls : List Call} (hexpire : calls[x]? = some (.expire k))
    (hresume : ∀ j call, j ≠ x → calls[j]? = some call → call.isResume = true) :
    (State.init hash w calls).AllUse (Part x) := by
  intro i p hp
  simp only [State.init, Pool.start, List.getElem?_map, Option.map_eq_some_iff] at hp
  obtain ⟨call, hcall, rfl⟩ := hp
  by_cases hi : i = x
  · subst hi
    obtain rfl := Option.some.inj (hexpire.symm.trans hcall)
    exact (uses_expire k).mono fun _ hc => ⟨fun _ => hc, fun h => absurd rfl h⟩
  · exact (uses_handler (hresume i call hi hcall)).mono fun _ hc => ⟨fun h => absurd h hi, fun _ => hc⟩

theorem gone_step (huse : s.AllUse (Part x)) (h : s.world.lookup (.session sid) = none) (a : Nat × Env) :
    (Pool.step exec s a).world.lookup (.session sid) = none := by
  rcases Pool.step_cases exec s a with heq | ⟨c, k, r, w, hp, hx, heq⟩
  · rwa [heq]
  · rw [heq]
    have hc := (huse a.1 _ hp).1
    by_cases ha : a.1 = x
    · exact gone_expires (hc.1 ha) hx h
    · obtain ⟨haround, hm⟩ := mild_exec sid (hc.2 ha) hx
      exact gone_mild haround hm h

theorem gone_run : ∀ (as : List (Nat × Env)) {s : State}, s.AllUse (Part x) → s.world.lookup (.session sid) = none →
    (Pool.run exec s as).world.lookup (.session sid) = none
  | [], _, _, h => h
  | a :: as, _, huse, h => gone_run as (Pool.uses_step huse a) (gone_step huse h a)

theorem exec_get_cases {r : Except GoErr Record} (hid : isRandomID sid = true)
    (h : exec i e w (.get sid) = some (r, w')) :
    w' = { w with clock := w.clock + e.delay } ∧
      ((∃ err, r = .error err ∧ err.is errNotFound = false) ∨ w'.lookup (.session sid) = none ∨
        ∃ record, r = .ok record ∧ w'.lookup (.session sid) = some record) := by
  rcases exec_cases h with h | ⟨⟨text, htext⟩, rfl⟩
  · simp only [World.answer, Option.some.injEq, Prod.mk.injEq, World.get, key_of_isRandomID hid] at h
    obtain ⟨hr, rfl⟩ := h
    refine ⟨rfl, .inr ?_⟩
    split at hr
    · rename_i record hrecord
      exact .inr ⟨record, hr.symm, hrecord⟩
    · rename_i hnone
      exact .inl hnone
  · cases htext
    exact ⟨rfl, .inl ⟨_, rfl, rfl⟩⟩

inductive Early (hash : String → String) (got : Record → Time → Except GoErr Record → Handler) (x k : Nat) (d : Record)
    (s : State) : Prop
  | start (hp : s.procs[x]? = some (Call.handler hash (.expire k)))
      (ht : (s.world.timers[k]?).map (·.disconnected) = some d)
  | fired (hp : s.procs[x]? = some (.call .now fun now => .call (.get d.sessionID) (got d now)))
  | timed (now : Time) (hp : s.procs[x]? = some (.call (.get d.sessionID) (got d now)))
  | done (b : Except GoErr Reply) (hp : s.procs[x]? = some (.ret b))

def AtDelete (x : Nat) (d : Record) (s : State) : Prop :=
  ∃ rest : Except GoErr Unit → Handler, s.procs[x]? = some (.call (.delete d.sessionID) rest) ∧
    ∀ err, rest (.error err) = .ret (.ok .done)

theorem AtDelete.deleting (h : AtDelete x d s) : Deleting x s := by
  obtain ⟨rest, hp, -⟩ := h
  rw [Deleting, hp, Option.any_some, isDelete]

theorem spares_of_data (hw : (Pool.step exec s a).world.data = s.world.data)
    (he : (Pool.step exec s a).world.events = s.world.events) : Spares x sid s a :=
  fun _ => ⟨he, fun h => by rwa [kept_of_data hw] at h⟩

theorem exec_fire {r : Record} (h : exec i e w (.fire k) = some (r, w')) :
    w'.data = w.data ∧ w'.events = w.events ∧ (w.timers[k]?).map (·.disconnected) = some r := by
  rcases exec_cases h with h | ⟨⟨text, htext⟩, -⟩
  · simp only [World.answer, World.fire] at h
    split at h
    · cases h
    · rename_i t ht
      split at h
      · cases h
      · cases h
        exact ⟨rfl, rfl, by rw [ht, Option.map_some]⟩
  · cases htext

theorem early_other {got : Record → Time → Except GoErr Record → Handler} (huse : s.AllUse (Part x))
    (h : Early hash got x k d s) (ha : a.1 ≠ x) : Early hash got x k d (Pool.step exec s a) := by
  have hprocs : (Pool.step exec s a).procs[x]? = s.procs[x]? := Pool.procs_step_of_ne exec ha
  cases h with
  | start hp ht =>
    refine .start (hprocs.trans hp) ?_
    rcases Pool.step_cases exec s a with heq | ⟨c, k, r, w, hpa, hx, heq⟩
    · rwa [heq]
    · rw [heq]
      have hmild := mild_exec "" (((huse a.1 _ hpa).1).2 ha) hx
      rw [hmild.1.timers]
      exact ht
  | fired hp => exact .fired (hprocs.trans hp)
  | timed now hp => exact .timed now (hprocs.trans hp)
  | done b hp => exact .done b (hprocs.trans hp)

section
variable {got : Record → Time → Except GoErr Record → Handler}
  (hstart : Call.handler hash (.expire k) =
    .call (.fire k) (fun d => .call .now fun now => .call (.get d.sessionID) (got d now)))
  (herr : ∀ d now err, err.is errNotFound = false → got d now (.error err) = .ret (.ok .done))
  (hother : ∀ d now r, r.connectionEpoch ≠ d.connectionEpoch → got d now (.ok r) = .ret (.ok .done))
  (hnext : ∀ d now r, got d now (.ok r) = .ret (.ok .done) ∨ ∃ rest : Except GoErr Unit → Handler,
    got d now (.ok r) = .call (.delete d.sessionID) rest ∧ ∀ err, rest (.error err) = .ret (.ok .done))
  (hid : isRandomID d.sessionID = true)
include hstart herr hother hnext hid

theorem early_own (h : Early hash got a.1 k d s) :
    (Pool.step exec s a).world.data = s.world.data ∧ (Pool.step exec s a).world.events = s.world.events ∧
      (Early hash got a.1 k d (Pool.step exec s a) ∨
        s.procs[a.1]?.any isGet = true ∧
          (Pool.step exec s a).world = { s.world with clock := s.world.clock + a.2.delay } ∧
          ((Pool.step exec s a).world.lookup (.session d.sessionID) = none ∨
            ∃ r, (Pool.step exec s a).world.lookup (.session d.sessionID) = some r ∧
              r.connectionEpoch = d.connectionEpoch ∧ AtDelete a.1 d (Pool.step exec s a))) := by
  obtain ⟨x, e⟩ := a
  have hstill : ∀ {c : Cmd} {k' : Ans c → Handler}, s.procs[x]? = some (.call c k') → exec x e s.world c = none →
      Pool.step exec s (x, e) = s := by
    intro c k' hp hx
    simp only [Pool.step, hp, hx]
  cases h with
  | start hp ht =>
    rw [hstart] at hp
    cases hx : exec x e s.world (.fire k) with
    | none =>
      rw [hstill hp hx]
      exact ⟨rfl, rfl, .inl (.start (hstart ▸ hp) ht)⟩
    | some res =>
      obtain ⟨r, w⟩ := res
      obtain ⟨hdata, hevents, hr⟩ := exec_fire hx
      obtain rfl := Option.some.inj (ht.symm.trans hr)
      obtain ⟨hw, hp'⟩ := Pool.step_of_exec exec hp hx
      exact ⟨hw ▸ hdata, hw ▸ hevents, .inl (.fired hp')⟩
  | fired hp =>
    cases hx : exec x e s.world .now with
    | none =>
      rw [hstill hp hx]
      exact ⟨rfl, rfl, .inl (.fired hp)⟩
    | some res =>
      obtain ⟨now, w⟩ := res
      obtain ⟨hw, hp'⟩ := Pool.step_of_exec exec hp hx
      obtain rfl : w = { s.world with clock := s.world.clock + e.delay } := by
        rcases exec_cases hx with hx | ⟨-, rfl⟩
        · cases hx; rfl
        · rfl
      exact ⟨by rw [hw], by rw [hw], .inl (.timed now hp')⟩
  | timed now hp =>
    obtain ⟨r, hx⟩ := exec_get_eq x e s.world d.sessionID
    obtain ⟨hw, hp'⟩ := Pool.step_of_exec exec hp hx
    refine ⟨by rw [hw], by rw [hw], ?_⟩
    have hget : s.procs[x]?.any isGet = true := by rw [hp, Option.any_some, isGet]
    rcases (exec_get_cases hid hx).2 with ⟨err, rfl, hne⟩ | hnone | ⟨record, rfl, hrecord⟩
    · exact .inl (.done _ (herr d now err hne ▸ hp'))
    · exact .inr ⟨hget, hw, .inl (hw ▸ hnone)⟩
    · by_cases hepoch : record.connectionEpoch = d.connectionEpoch
      · rcases hnext d now record with h | ⟨rest, h, hrest⟩
        · exact .inl (.done _ (h ▸ hp'))
        · exact .inr ⟨hget, hw, .inr ⟨record, hw ▸ hrecord, hepoch, rest, h ▸ hp', hrest⟩⟩
      · exact .inl (.done _ (hother d now record hepoch ▸ hp'))
  | done b hp =>
    rw [Pool.step_of_ret exec hp]
    exact ⟨rfl, rfl, .inl (.done b hp)⟩

variable (hash got k) in
omit hstart herr hother hnext in
theorem delete_own (h : AtDelete a.1 d s) :
    (Pool.step exec s a).world.kept (.session d.sessionID) = none ∨
      (Pool.step exec s a).world.data = s.world.data ∧ (Pool.step exec s a).world.events = s.world.events ∧
        Early hash got a.1 k d (Pool.step exec s a) := by
  obtain ⟨x, e⟩ := a
  obtain ⟨rest, hp, hrest⟩ := h
  have hx : ∃ r w, exec x e s.world (.delete d.sessionID) = some (r, w) := by
    unfold exec
    cases e.fail <;> exact ⟨_, _, rfl⟩
  obtain ⟨r, w, hx⟩ := hx
  obtain ⟨hw, hp'⟩ := Pool.step_of_exec exec hp hx
  rcases exec_cases hx with hx | ⟨⟨text, htext⟩, rfl⟩
  · cases hx
    exact .inl (by rw [hw, kept_delete, if_pos (key_of_isRandomID hid).symm])
  · cases htext
    exact .inr ⟨by rw [hw], by rw [hw], .done _ (hrest _ ▸ hp')⟩

theorem live_run : ∀ (as : List (Nat × Env)) {s : State}, s.AllUse (Part x) → Early hash got x k d s ∨ AtDelete x d s →
    (Pool.Along exec (Spares x d.sessionID) s as ∧
      (Early hash got x k d (Pool.run exec s as) ∨ AtDelete x d (Pool.run exec s as))) ∨
      (Pool.run exec s as).world.lookup (.session d.sessionID) = none
  | [], _, _, h => .inl ⟨trivial, h⟩
  | a :: as, s, huse, h => by
    have hstep : (Spares x d.sessionID s a ∧
        (Early hash got x k d (Pool.step exec s a) ∨ AtDelete x d (Pool.step exec s a))) ∨
          (Pool.step exec s a).world.lookup (.session d.sessionID) = none := by
      by_cases ha : a.1 = x
      · subst ha
        rcases h with h | h
        · obtain ⟨hdata, hevents, h | ⟨-, -, h | ⟨_, -, -, h⟩⟩⟩ := early_own hstart herr hother hnext hid h
          · exact .inl ⟨spares_of_data hdata hevents, .inl h⟩
          · exact .inr h
          · exact .inl ⟨spares_of_data hdata hevents, .inr h⟩
        · rcases delete_own hash k got hid h with h | ⟨hdata, hevents, h⟩
          · exact .inr (lookup_none_of_data (Option.map_eq_none_iff.mp h))
          · exact .inl ⟨spares_of_data hdata hevents, .inl h⟩
      · refine .inl ⟨fun h => absurd h ha, h.imp (early_other huse · ha) fun ⟨rest, hp, hrest⟩ => ?_⟩
        exact ⟨rest, (Pool.procs_step_of_ne exec ha).trans hp, hrest⟩
    rcases hstep with ⟨hspares, hlive⟩ | hgone
    · exact (live_run as (Pool.uses_step huse a) hlive).imp_left fun h => ⟨⟨hspares, h.1⟩, h.2⟩
    · exact .inr (gone_run as (Pool.uses_step huse a) hgone)

theorem behind_run : ∀ (as : List (Nat × Env)) {s : State}, s.AllUse (Part x) → Early hash got x k d s →
    Superseded d.sessionID d.connectionEpoch s.world → Pool.Along exec (Outlives x d.sessionID) s as →
      Pool.Along exec (Spares x d.sessionID) s as
  | [], _, _, _, _, _ => trivial
  | a :: as, s, huse, h, hsup, hlives => by
    have hstep : Spares x d.sessionID s a ∧ Early hash got x k d (Pool.step exec s a) ∧
        Superseded d.sessionID d.connectionEpoch (Pool.step exec s a).world := by
      by_cases ha : a.1 = x
      · subst ha
        obtain ⟨hdata, hevents, hnext'⟩ := early_own hstart herr hother hnext hid h
        have hsup' : Superseded d.sessionID d.connectionEpoch (Pool.step exec s a).world := by
          obtain ⟨r, hr, hlt⟩ := hsup
          exact ⟨r, (kept_of_data hdata _).trans hr, hlt⟩
        refine ⟨spares_of_data hdata hevents, ?_, hsup'⟩
        rcases hnext' with h | ⟨hget, hw, hnone | ⟨r, hr, hepoch, -⟩⟩
        · exact h
        · exact absurd (hw ▸ hnone) (hlives.1 rfl hget)
        · obtain ⟨r', hr', hlt⟩ := hsup'
          rw [Option.some.inj ((kept_of_lookup hr).symm.trans hr')] at hepoch
          exact absurd hepoch (Nat.ne_of_gt hlt)
      · refine ⟨fun h => absurd h ha, early_other huse h ha, ?_⟩
        rcases Pool.step_cases exec s a with heq | ⟨c, k, r, w, hpa, hx, heq⟩
        · rwa [heq]
        · rw [heq]
          exact superseded_mild (mild_exec _ (((huse a.1 _ hpa).1).2 ha) hx).2 hsup
    exact ⟨hstep.1, behind_run as (Pool.uses_step huse a) hstep.2.1 hstep.2.2 hlives.2⟩

end

theorem lookup_of_superseded (huse : s.AllUse (Part x)) (hno : ¬Superseded sid epoch s.world)
    (hsup : Superseded sid epoch (Pool.step exec s a).world) :
    a.1 ≠ x ∧ s.world.lookup (.session sid) ≠ none := by
  rcases Pool.step_cases exec s a with heq | ⟨c, k, r, w, hp, hx, heq⟩
  · exact absurd (heq ▸ hsup) hno
  rw [heq] at hsup
  obtain ⟨r', hr', hlt⟩ := hsup
  have hc := (huse a.1 _ hp).1
  have hne : a.1 ≠ x := by
    intro ha
    obtain ⟨r, hr, hsame⟩ := (keeps_expires (hc.1 ha) hx).session sid r' hr'
    exact hno ⟨r, hr, hsame.connectionEpoch ▸ hlt⟩
  refine ⟨hne, fun hnone => ?_⟩
  cases (mild_exec sid (hc.2 hne) hx).2 with
  | same hentry => exact hno ⟨r', by rw [World.kept, ← hentry]; exact hr', hlt⟩
  | swap expected updated hold => cases hnone.symm.trans hold

end Expiry

/-- At the step by which a resume takes the session beyond the epoch of the
timer: whatever follows, as long as the record outlives the expiry's read, the
expiry neither deletes the session nor reports it as expired, exactly if it does
not stand between its read and its delete. -/
theorem expiry_spares_iff (hash : String → String) (w₀ : World) (calls : List Call) (x k : Nat) (t : Timer)
    (hexpire : calls[x]? = some (.expire k))
    (hresume : ∀ j call, j ≠ x → calls[j]? = some call → call.isResume = true) (htimer : w₀.timers[k]? = some t)
    (hid : isRandomID t.disconnected.sessionID = true) (pre : List (Nat × Env)) (b : Nat × Env) :
    let sid := t.disconnected.sessionID
    let epoch := t.disconnected.connectionEpoch
    let s₀ := State.init hash w₀ calls
    let s := Pool.run exec s₀ pre
    let s' := Pool.step exec s b
    ¬Superseded sid epoch s.world → Superseded sid epoch s'.world →
    ((∀ post, Pool.Along exec (Outlives x sid) s' post → Pool.Along exec (Spares x sid) s₀ (pre ++ b :: post)) ↔
      ¬Deleting x s) := by
  intro sid epoch s₀ s s' hno hsup
  obtain ⟨got, hstart, herr, hother, hnext⟩ := Expiry.expire_eq hash k
  have huse₀ : s₀.AllUse (Expiry.Part x) := Expiry.allUse_init hexpire hresume
  have huse : s.AllUse (Expiry.Part x) := Pool.uses_run pre huse₀
  obtain ⟨hbx, hthere⟩ := Expiry.lookup_of_superseded huse hno hsup
  have hprocs : s₀.procs[x]? = some (Call.handler hash (.expire k)) := by
    rw [show s₀.procs = calls.map (Call.handler hash) from rfl, List.getElem?_map, hexpire, Option.map_some]
  have htimer' : (s₀.world.timers[k]?).map (·.disconnected) = some t.disconnected := by
    rw [show s₀.world = w₀ from rfl, htimer, Option.map_some]
  obtain ⟨hpre, hstage⟩ := (Expiry.live_run hstart herr hother hnext hid pre huse₀
    (.inl (.start hprocs htimer'))).resolve_right hthere
  constructor
  · intro hall hdeleting
    obtain ⟨rest, hp, -⟩ : Expiry.AtDelete x t.disconnected s := by
      refine hstage.resolve_left fun hearly => ?_
      cases hearly with
      | start hp => rw [Deleting, hp, hstart] at hdeleting; cases hdeleting
      | fired hp => rw [Deleting, hp] at hdeleting; cases hdeleting
      | timed now hp => rw [Deleting, hp] at hdeleting; cases hdeleting
      | done b hp => rw [Deleting, hp] at hdeleting; cases hdeleting
    have hp' : s'.procs[x]? = some (.call (.delete sid) rest) := (Pool.procs_step_of_ne exec hbx).trans hp
    have hlives : Pool.Along exec (Outlives x sid) s' [(x, {})] := by
      refine ⟨fun _ hget => ?_, trivial⟩
      rw [hp'] at hget
      cases hget
    obtain ⟨-, -, hspares, -⟩ := (Pool.along_append exec pre _ s₀).mp (hall _ hlives)
    obtain ⟨hw, -⟩ := Pool.step_of_exec exec hp' (e := {}) rfl
    obtain ⟨r, hr, -⟩ := hsup
    have hnone := (hspares rfl).2 (by rw [hw, kept_delete, if_pos (key_of_isRandomID hid).symm])
    exact nomatch hnone.symm.trans hr
  · intro hnot post hlives
    have hearly := hstage.resolve_right fun h => hnot h.deleting
    refine (Pool.along_append exec pre _ s₀).mpr ⟨hpre, fun h => absurd h hbx, ?_⟩
    exact Expiry.behind_run hstart herr hother hnext hid post (Pool.uses_step huse b)
      (Expiry.early_other huse hearly hbx) hsup hlives

/-! ## Both orders -/

instance (sid : String) (epoch : Nat) (w : World) : Decidable (Superseded sid epoch w) :=
  match h : w.kept (.session sid) with
  | none => .isFalse fun ⟨_, hr, _⟩ => nomatch h.symm.trans hr
  | some r =>
    decidable_of_iff (epoch < r.connectionEpoch)
      ⟨fun hlt => ⟨r, h, hlt⟩, fun ⟨_, hr, hlt⟩ => by cases h.symm.trans hr; exact hlt⟩

def meetDisconnect : List (Nat × Env) :=
  [(1, {}), (1, { delay := 2000000, lag := 2000000 }), (1, {}), (1, {}), (1, {}), (1, {})]

def disconnectedWorld : World :=
  (Pool.run exec
    (State.init id (World.init .redis 1 ∅ 0)
      [.login gateway1 "c1" "account" "player", .disconnect gateway1 drawn1 "c1" 0 1])
    (lateLogin ++ meetDisconnect)).world

def meetTimer : Timer where
  disconnected :=
    { sessionID := drawn1, accountID := "account", playerID := "player"
      gatewayInstanceID := "gateway-1", connectionID := "c1", connectionEpoch := 1, state := .authenticated
      resumeTokenHash := drawn2, expireAt := 3600000000000 }
  due := 30000000000

def meetCalls : List Call :=
  [.resumeLogin gateway1 "c2" drawn1 drawn2, .expire 0]

def meetRead : List (Nat × Env) := [(0, { delay := 29997999999 }), (0, {})]

def meetDraw : List (Nat × Env) := [(0, { id := drawn3 })]

def meetExpire : List (Nat × Env) := [(1, { delay := 1 }), (1, {}), (1, {})]

theorem expiry_resumed_first :
    let s₀ := State.init id disconnectedWorld meetCalls
    ¬Deleting 1 (Pool.run exec s₀ (meetRead ++ meetDraw)) ∧
      Pool.Along exec (Spares 1 drawn1) s₀ ((meetRead ++ meetDraw) ++ (0, {}) :: meetExpire) := by
  intro s₀
  obtain ⟨hnot, htimer, hno, hsup, hlives⟩ : ¬Deleting 1 (Pool.run exec s₀ (meetRead ++ meetDraw)) ∧
      disconnectedWorld.timers[0]? = some meetTimer ∧
      ¬Superseded drawn1 1 (Pool.run exec s₀ (meetRead ++ meetDraw)).world ∧
      Superseded drawn1 1
        (Pool.step exec (Pool.run exec s₀ (meetRead ++ meetDraw)) (0, {})).world ∧
      Pool.Along exec (Outlives 1 drawn1)
        (Pool.step exec (Pool.run exec s₀ (meetRead ++ meetDraw)) (0, {})) meetExpire := by
    decide +kernel
  refine ⟨hnot, (expiry_spares_iff id disconnectedWorld meetCalls 1 0 meetTimer rfl (fun j call hj hcall => ?_) htimer
    (by decide) (meetRead ++ meetDraw) (0, {}) hno hsup).mpr hnot meetExpire hlives⟩
  match j with
  | 0 => cases hcall; rfl
  | 1 => exact absurd rfl hj
  | j + 2 => cases hcall

theorem expiry_deletes_resumed :
    let s₀ := State.init id disconnectedWorld meetCalls
    let s := Pool.run exec s₀ (meetRead ++ meetExpire ++ meetDraw ++ Pool.inOrder [0, 0, 0, 0, 0])
    let s' := Pool.run exec s (Pool.inOrder [1, 1, 1])
    (∃ c, s.answer 0 = some (.ok (.created c)) ∧ c.record.connectionEpoch = 2) ∧
    ((s.world.lookup (.session drawn1)).map (·.connectionEpoch) = some 2) ∧
    s'.world.lookup (.session drawn1) = none ∧
    s.world.events.map (·.type) = [.connected, .disconnected, .resumed] ∧
    s'.world.events.map (·.type) = [.connected, .disconnected, .resumed, .expired] := by
  intro s₀ s s'
  have hcreated : s.answer 0 = some (.ok (.created ⟨{ resumedRecord with expireAt := 3629999999999 }, drawn3⟩)) := by
    decide +kernel
  exact ⟨⟨_, hcreated, rfl⟩, by decide +kernel⟩

end GameServer.Gateway
