import GameServer.SessionExec
import GameServer.Trace
import Mathlib.Data.List.Nodup
import Mathlib.Data.List.Induction

/-!
# The slot of an account in Redis

`ClaimAccount` and `ReleaseAccount` on one account, by any number of gateways.
Each is one script. A record that has been claimed is in the slot until another
claim takes it out or a release of its own connection removes it, and only one
of the two happens.
-/

namespace GameServer.Gateway

inductive SlotCall
  | claim (r : Record)
  | release (connectionID : String)

inductive SlotReply
  | claimed (previous : Except GoErr (Option Record))
  | released (result : Except GoErr Unit)

namespace SlotCall

def handler (accountID : String) : SlotCall → Prog Ans SlotReply
  | .claim r => do return .claimed (← perform (.claimAccount accountID r))
  | .release connectionID => do return .released (← perform (.releaseAccount accountID connectionID))

def record? : SlotCall → Option Record
  | .claim r => some r
  | .release _ => none

end SlotCall

abbrev SlotState := Pool Ans World SlotReply

def SlotState.init (accountID : String) (w : World) (calls : List SlotCall) : SlotState :=
  Pool.start w (calls.map (SlotCall.handler accountID))

def World.slot (w : World) (accountID : String) : Option Record := w.lookup (.account accountID)

def Distinct (calls : List SlotCall) : Prop := ((calls.filterMap SlotCall.record?).map (·.connectionID)).Nodup

def Unexpired (accountID : String) (s : SlotState) (a : Nat × Env) : Prop :=
  ∀ entry, s.world.data.lookup (.account accountID) = some entry → s.world.clock + a.2.delay < entry.deadline

instance (accountID : String) (s : SlotState) (a : Nat × Env) : Decidable (Unexpired accountID s a) :=
  match h : s.world.data.lookup (.account accountID) with
  | none => .isTrue fun _ h' => nomatch h.symm.trans h'
  | some entry =>
    decidable_of_iff (s.world.clock + a.2.delay < entry.deadline)
      ⟨fun hlt _ h' => by cases h.symm.trans h'; exact hlt, fun hall => hall entry h⟩

instance (calls : List SlotCall) : Decidable (Distinct calls) := inferInstanceAs (Decidable (List.Nodup _))

inductive Fate
  | current
  | handedTo (call : Nat)
  | removedBy (call : Nat)

def Meets (accountID : String) (calls : List SlotCall) (s : SlotState) (r : Record) (after : List (Nat × Env)) : Fate → Prop
  | .current => (Pool.run exec s after).world.slot accountID = some r
  | .handedTo j => s.answer j = none ∧ (Pool.run exec s after).answer j = some (.claimed (.ok (some r)))
  | .removedBy j => calls[j]? = some (.release r.connectionID) ∧
    ∃ m ∈ Pool.trace exec s after, m.pid = j ∧ m.old.slot accountID = some r ∧ m.new.slot accountID = none

namespace AccountSlot

variable {accountID : String} {calls : List SlotCall} {s : SlotState} {i : Nat} {e : Env} {w w' : World} {a : Nat × Env}

/-! ## The scripts -/

theorem slot_tick (h : ∀ entry, w.data.lookup (.account accountID) = some entry → w.clock + e.delay < entry.deadline) :
    World.slot { w with clock := w.clock + e.delay } accountID = w.slot accountID := by
  unfold World.slot World.lookup
  cases hd : w.data.lookup (.account accountID) with
  | none => rfl
  | some entry =>
    have hlt := h entry hd
    simp only
    rw [if_neg fun hgone => Nat.not_le.mpr hlt hgone.2,
      if_neg fun hgone => Nat.not_le.mpr (Nat.lt_of_le_of_lt (Nat.le_add_right ..) hlt) hgone.2]

theorem slot_claim {r : Record} {x : Except GoErr (Option Record)} (hredis : w.store = .redis)
    (h : commitWith w (w.claimAccount e accountID r) = (x, w')) :
    (∃ err, x = .error err) ∧ w' = w ∨
      x = .ok (w.slot accountID) ∧ w'.slot accountID = some r ∧ w'.store = .redis := by
  simp only [World.claimAccount, hredis] at h
  split at h
  · cases h
    exact .inl ⟨⟨_, rfl⟩, rfl⟩
  split at h
  · cases h
    exact .inl ⟨⟨_, rfl⟩, rfl⟩
  · rename_i hms
    cases h
    refine .inr ⟨rfl, lookup_put_self fun _ => Nat.lt_add_of_pos_right (Nat.mul_pos (Nat.pos_of_ne_zero hms) ?_), hredis⟩
    decide

theorem slot_release (connectionID : String) (hredis : w.store = .redis) :
    (w.releaseAccount accountID connectionID = w ∧ ∀ r, w.slot accountID = some r → r.connectionID ≠ connectionID) ∨
      (∃ r, w.slot accountID = some r ∧ r.connectionID = connectionID) ∧
        (w.releaseAccount accountID connectionID).slot accountID = none ∧
        (w.releaseAccount accountID connectionID).store = .redis := by
  simp only [World.releaseAccount, hredis, World.slot]
  split
  · rename_i hnone
    exact .inl ⟨rfl, fun r hr => nomatch hnone.symm.trans hr⟩
  · rename_i r hr
    by_cases hc : r.connectionID = connectionID
    · rw [if_pos hc]
      exact .inr ⟨⟨r, hr, hc⟩, by simp [World.lookup], rfl⟩
    · rw [if_neg hc]
      refine .inl ⟨rfl, fun r' hr' => ?_⟩
      rwa [← Option.some.inj (hr.symm.trans hr')]

/-! ## One step -/

def Waiting (accountID : String) (calls : List SlotCall) (i : Nat) (p : Prog Ans SlotReply) : Prop :=
  (∃ call, calls[i]? = some call ∧ p = call.handler accountID) ∨ ∃ b, p = .ret b

theorem waiting_next (i : Nat) (c : Cmd) (k : Ans c → Prog Ans SlotReply) (r : Ans c)
    (h : Waiting accountID calls i (.call c k)) : Waiting accountID calls i (k r) := by
  rcases h with ⟨call, -, h⟩ | ⟨b, h⟩
  · cases call <;>
    · cases h
      exact .inr ⟨_, rfl⟩
  · cases h

structure Inv (accountID : String) (calls : List SlotCall) (s : SlotState) : Prop where
  redis : s.world.store = .redis
  procs : ∀ i p, s.procs[i]? = some p → Waiting accountID calls i p

theorem inv_init (hredis : w.store = .redis) : Inv accountID calls (SlotState.init accountID w calls) := by
  refine ⟨hredis, fun i p hp => .inl ?_⟩
  simp only [SlotState.init, Pool.start, List.getElem?_map, Option.map_eq_some_iff] at hp
  obtain ⟨call, hcall, rfl⟩ := hp
  exact ⟨call, hcall, rfl⟩

inductive Moves (accountID : String) (calls : List SlotCall) (s s' : SlotState) (j : Nat) : Prop
  | still (hslot : s'.world.slot accountID = s.world.slot accountID)
      (hold : ∀ x, s'.answer j = some (.claimed (.ok x)) → s.answer j = some (.claimed (.ok x)))
  | claimed (r : Record) (hcall : calls[j]? = some (.claim r)) (hnone : s.answer j = none)
      (hslot : s'.world.slot accountID = some r)
      (hanswer : s'.answer j = some (.claimed (.ok (s.world.slot accountID))))
  | removed (r : Record) (hcall : calls[j]? = some (.release r.connectionID)) (hslot : s.world.slot accountID = some r)
      (hgone : s'.world.slot accountID = none) (hanswer : s'.answer j = some (.released (.ok ())))

theorem answer_of_call {c : Cmd} {k : Ans c → Prog Ans SlotReply} (h : s.procs[i]? = some (.call c k)) :
    s.answer i = none := by
  simp only [Pool.answer, h]

theorem answer_of_ret {b : SlotReply} (h : s.procs[i]? = some (.ret b)) : s.answer i = some b := by
  simp only [Pool.answer, h]

theorem moves_step (hi : Inv accountID calls s) (hun : Unexpired accountID s a) :
    Inv accountID calls (Pool.step exec s a) ∧ Moves accountID calls s (Pool.step exec s a) a.1 := by
  rcases Pool.step_cases exec s a with h | ⟨c, k, x, w, hp, hx, h⟩
  · rw [h]
    exact ⟨hi, .still rfl fun _ hx => hx⟩
  have hprocs : ∀ i p, (Pool.step exec s a).procs[i]? = some p → Waiting accountID calls i p :=
    Pool.procs_step waiting_next hi.procs a
  obtain ⟨hworld, hnext⟩ := Pool.step_of_exec exec hp hx
  have hnone := answer_of_call hp
  have htick := slot_tick (e := a.2) hun
  -- the call has returned, with nothing claimed
  have hstill : ∀ b, k x = .ret b → (∀ y, b ≠ .claimed (.ok y)) → w.store = .redis →
      w.slot accountID = s.world.slot accountID → Inv accountID calls (Pool.step exec s a) ∧
        Moves accountID calls s (Pool.step exec s a) a.1 := by
    intro b hb hne hstore hslot
    refine ⟨⟨hworld ▸ hstore, hprocs⟩, .still (hworld ▸ hslot) fun y hy => ?_⟩
    rw [answer_of_ret (hb ▸ hnext)] at hy
    exact absurd (Option.some.inj hy) (hne y)
  rcases hi.procs a.1 _ hp with ⟨call, hcall, heq⟩ | ⟨b, hb⟩
  · cases call with
    | claim r =>
      cases heq
      rcases exec_cases hx with hx | ⟨⟨text, htext⟩, rfl⟩
      · rcases slot_claim (w := { s.world with clock := s.world.clock + a.2.delay }) hi.redis (Option.some.inj hx) with
          ⟨⟨err, rfl⟩, rfl⟩ | ⟨rfl, hslot, hstore⟩
        · exact hstill _ rfl (fun _ h => nomatch h) hi.redis htick
        · refine ⟨⟨hworld ▸ hstore, hprocs⟩, .claimed r hcall hnone (hworld ▸ hslot) ?_⟩
          rw [answer_of_ret hnext, htick]
      · cases htext
        exact hstill _ rfl (fun _ h => nomatch h) hi.redis htick
    | release connectionID =>
      cases heq
      rcases exec_cases hx with hx | ⟨⟨text, htext⟩, rfl⟩
      · cases hx
        rcases slot_release (w := { s.world with clock := s.world.clock + a.2.delay }) connectionID hi.redis with
          ⟨hsame, -⟩ | ⟨⟨r, hr, rfl⟩, hgone, hstore⟩
        · exact hstill _ rfl (fun _ h => nomatch h) (by rw [hsame]; exact hi.redis) (by rw [hsame]; exact htick)
        · exact ⟨⟨hworld ▸ hstore, hprocs⟩, .removed r hcall (htick ▸ hr) (hworld ▸ hgone) (answer_of_ret hnext)⟩
      · cases htext
        exact hstill _ rfl (fun _ h => nomatch h) hi.redis htick
  · cases hb

theorem inv_run (as : List (Nat × Env)) (hi : Inv accountID calls s)
    (hun : Pool.Along exec (Unexpired accountID) s as) : Inv accountID calls (Pool.run exec s as) :=
  Pool.run_induction exec (I := Inv accountID calls) (fun _ _ hi hun => (moves_step hi hun).1) as s hi hun

/-! ## Whole runs -/

section
variable {s' : SlotState} {r : Record} {j : Nat} (hm : Moves accountID calls s s' j)
  (hother : ∀ r', calls[j]? = some (.claim r') → s.answer j = none → r' ≠ r)
include hm hother

theorem moves_gone (hslot : s.world.slot accountID ≠ some r) :
    s'.world.slot accountID ≠ some r ∧
      (s'.answer j = some (.claimed (.ok (some r))) → s.answer j = some (.claimed (.ok (some r)))) := by
  cases hm with
  | still hsame hold => exact ⟨hsame ▸ hslot, hold _⟩
  | claimed r' hcall hnone hnew hanswer =>
    refine ⟨fun h => hother r' hcall hnone (Option.some.inj (hnew.symm.trans h)), fun h => ?_⟩
    rw [hanswer] at h
    simp only [Option.some.injEq, SlotReply.claimed.injEq, Except.ok.injEq] at h
    exact absurd h hslot
  | removed r' _ _ hgone hanswer => exact ⟨by simp [hgone], fun h => nomatch hanswer.symm.trans h⟩

theorem moves_current (hslot : s.world.slot accountID = some r) :
    (s'.world.slot accountID = some r ∧
      (s'.answer j = some (.claimed (.ok (some r))) → s.answer j = some (.claimed (.ok (some r))))) ∨
    (s'.world.slot accountID ≠ none ∧ s'.world.slot accountID ≠ some r ∧ s.answer j = none ∧
      s'.answer j = some (.claimed (.ok (some r)))) ∨
    (calls[j]? = some (.release r.connectionID) ∧ s'.world.slot accountID = none ∧
      s'.answer j ≠ some (.claimed (.ok (some r)))) := by
  cases hm with
  | still hsame hold => exact .inl ⟨hsame.trans hslot, hold _⟩
  | claimed r' hcall hnone hnew hanswer =>
    refine .inr (.inl ⟨by simp [hnew], ?_, hnone, by rw [hanswer, hslot]⟩)
    simp only [hnew, ne_eq, Option.some.injEq]
    exact hother r' hcall hnone
  | removed r' hcall hr' hgone hanswer =>
    obtain rfl := Option.some.inj (hr'.symm.trans hslot)
    exact .inr (.inr ⟨hcall, hgone, by simp [hanswer]⟩)

end

theorem meets_removedBy_snoc {r : Record} {as : List (Nat × Env)} {j : Nat} :
    Meets accountID calls s r (as ++ [a]) (.removedBy j) ↔ Meets accountID calls s r as (.removedBy j) ∨
      calls[j]? = some (.release r.connectionID) ∧ a.1 = j ∧ (Pool.run exec s as).world.slot accountID = some r ∧
        (Pool.run exec s (as ++ [a])).world.slot accountID = none := by
  simp only [Meets, Pool.trace_append, Pool.trace, Pool.run_append, Pool.run_cons, Pool.run_nil, List.mem_append,
    List.mem_singleton, or_and_right, exists_or, exists_eq_left, and_or_left]

theorem fate_run {r : Record} (hi : Inv accountID calls s) (hslot : s.world.slot accountID = some r)
    (hother : ∀ j r', calls[j]? = some (.claim r') → s.answer j = none → r' ≠ r) (as : List (Nat × Env)) :
    Pool.Along exec (Unexpired accountID) s as → ∃! fate, Meets accountID calls s r as fate := by
  induction as using List.reverseRecOn with
  | nil =>
    refine fun _ => ⟨.current, hslot, fun fate h => ?_⟩
    cases fate with
    | current => rfl
    | handedTo j => exact nomatch h.1.symm.trans h.2
    | removedBy j =>
      obtain ⟨-, m, hm, -⟩ := h
      cases hm
  | append_singleton as a ih =>
    intro hun
    obtain ⟨hun₁, hun₂, -⟩ := (Pool.along_append exec as [a] s).mp hun
    obtain ⟨fate, hfate, huniq⟩ := ih hun₁
    have hrun : Pool.run exec s (as ++ [a]) = Pool.step exec (Pool.run exec s as) a := by
      rw [Pool.run_append, Pool.run_cons, Pool.run_nil]
    have hm := (moves_step (inv_run as hi hun₁) hun₂).2
    have hnot : ∀ r', calls[a.1]? = some (.claim r') → (Pool.run exec s as).answer a.1 = none → r' ≠ r := by
      intro r' hcall hnone
      refine hother a.1 r' hcall ?_
      cases hx : s.answer a.1 with
      | none => rfl
      | some x => exact nomatch hnone.symm.trans (Pool.answer_run_of_some exec as hx)
    rw [← hrun] at hm
    -- the answers of all calls but the one that moves are those they had
    have hanswer : ∀ j, j ≠ a.1 → (Pool.run exec s (as ++ [a])).answer j = (Pool.run exec s as).answer j := by
      intro j hj
      rw [hrun, Pool.answer_step_of_ne exec (Ne.symm hj)]
    have hkeep : ∀ {j x}, (Pool.run exec s as).answer j = some x → (Pool.run exec s (as ++ [a])).answer j = some x := by
      intro j x hx
      rw [hrun]
      exact Pool.answer_step_of_some exec hx a
    by_cases hcur : (Pool.run exec s as).world.slot accountID = some r
    · -- so far its only fate is to be in the slot
      have hnone : ∀ fate, fate ≠ .current → ¬ Meets accountID calls s r as fate := fun f hne h =>
        hne ((huniq f h).trans (huniq .current hcur).symm)
      have hfirst : ∀ j, s.answer j = none → (Pool.run exec s as).answer j ≠ some (.claimed (.ok (some r))) :=
        fun j hj h => hnone (.handedTo j) (nomatch ·) ⟨hj, h⟩
      have hunremoved : ∀ j, ¬ Meets accountID calls s r as (.removedBy j) := fun j => hnone _ (nomatch ·)
      rcases moves_current hm hnot hcur with ⟨hstay, hold⟩ | ⟨hfull, hgone, hnew, hhanded⟩ | ⟨hcall, hgone, hne⟩
      · refine ⟨.current, hstay, fun fate h => ?_⟩
        cases fate with
        | current => rfl
        | handedTo j =>
          by_cases hj : j = a.1
          · exact absurd (hold (hj ▸ h.2)) (hj ▸ hfirst j h.1)
          · exact absurd (hanswer j hj ▸ h.2) (hfirst j h.1)
        | removedBy j =>
          rcases meets_removedBy_snoc.mp h with h | ⟨-, -, -, h⟩
          · exact absurd h (hunremoved j)
          · exact nomatch hstay.symm.trans h
      · refine ⟨.handedTo a.1, ⟨?_, hhanded⟩, fun fate h => ?_⟩
        · cases hx : s.answer a.1 with
          | none => rfl
          | some x => exact nomatch hnew.symm.trans (Pool.answer_run_of_some exec as hx)
        cases fate with
        | current => exact absurd h hgone
        | handedTo j =>
          by_cases hj : j = a.1
          · rw [hj]
          · exact absurd (hanswer j hj ▸ h.2) (hfirst j h.1)
        | removedBy j =>
          rcases meets_removedBy_snoc.mp h with h | ⟨-, -, -, h⟩
          · exact absurd h (hunremoved j)
          · exact absurd h hfull
      · refine ⟨.removedBy a.1, meets_removedBy_snoc.mpr (.inr ⟨hcall, rfl, hcur, hgone⟩), fun fate h => ?_⟩
        cases fate with
        | current => exact nomatch hgone.symm.trans h
        | handedTo j =>
          by_cases hj : j = a.1
          · exact absurd (hj ▸ h.2) hne
          · exact absurd (hanswer j hj ▸ h.2) (hfirst j h.1)
        | removedBy j =>
          rcases meets_removedBy_snoc.mp h with h | ⟨-, h, -⟩
          · exact absurd h (hunremoved j)
          · rw [h]
    · -- it has met its fate already
      obtain ⟨hgone, hold⟩ := moves_gone hm hnot hcur
      refine (existsUnique_congr fun fate => ?_).mpr ⟨fate, hfate, huniq⟩
      cases fate with
      | current => exact iff_of_false hgone hcur
      | handedTo j =>
        refine and_congr_right fun _ => ⟨fun h => ?_, hkeep⟩
        by_cases hj : j = a.1
        · exact hj ▸ hold (hj ▸ h)
        · exact hanswer j hj ▸ h
      | removedBy j => exact meets_removedBy_snoc.trans (or_iff_left fun h => hcur h.2.2.1)

theorem claim_inj (h : Distinct calls) {i j : Nat} {r : Record} (hi : calls[i]? = some (.claim r))
    (hj : calls[j]? = some (.claim r)) : i = j := by
  rw [Distinct, List.Nodup, List.pairwise_map, List.pairwise_filterMap, List.pairwise_iff_getElem] at h
  obtain ⟨hilt, hi⟩ := List.getElem?_eq_some_iff.mp hi
  obtain ⟨hjlt, hj⟩ := List.getElem?_eq_some_iff.mp hj
  rcases Nat.lt_trichotomy i j with hlt | heq | hlt
  · exact absurd rfl (h i j hilt hjlt hlt r (by rw [hi]; rfl) r (by rw [hj]; rfl))
  · exact heq
  · exact absurd rfl (h j i hjlt hilt hlt r (by rw [hj]; rfl) r (by rw [hi]; rfl))

theorem release_still {connectionID : String} (hi : Inv accountID calls s)
    (hcall : calls[a.1]? = some (.release connectionID))
    (hother : ∀ r, s.world.slot accountID = some r → r.connectionID ≠ connectionID) :
    (Pool.step exec s a).world.data = s.world.data := by
  rcases Pool.step_cases exec s a with h | ⟨c, k, x, w, hp, hx, h⟩
  · rw [h]
  rw [h]
  rcases hi.procs a.1 _ hp with ⟨call, hcall', heq⟩ | ⟨b, hb⟩
  · obtain rfl := Option.some.inj (hcall.symm.trans hcall')
    cases heq
    rcases exec_cases hx with hx | ⟨-, rfl⟩
    · cases hx
      rcases slot_release (w := { s.world with clock := s.world.clock + a.2.delay }) connectionID hi.redis with
        ⟨hsame, -⟩ | ⟨⟨r, hr, hconn⟩, -⟩
      · rw [hsame]
      · exact absurd hconn (hother r (lookup_of_later hr))
    · rfl
  · cases hb

end AccountSlot

/-- Over whole runs: a record that a call has claimed has met exactly one fate,
and a release that does not name the holder changes nothing. -/
theorem slot_accounting (accountID : String) (w₀ : World) (hredis : w₀.store = .redis) (calls : List SlotCall)
    (hdistinct : Distinct calls) (before after : List (Nat × Env)) (a : Nat × Env)
    (hun : Pool.Along exec (Unexpired accountID) (SlotState.init accountID w₀ calls) (before ++ a :: after)) :
    let s := Pool.run exec (SlotState.init accountID w₀ calls) before
    let s' := Pool.step exec s a
    (∀ r previous, calls[a.1]? = some (.claim r) → s.answer a.1 = none →
      s'.answer a.1 = some (.claimed (.ok previous)) → ∃! fate, Meets accountID calls s' r after fate) ∧
    ∀ connectionID, calls[a.1]? = some (.release connectionID) →
      (∀ r, s.world.slot accountID = some r → r.connectionID ≠ connectionID) → s'.world.data = s.world.data := by
  intro s s'
  obtain ⟨hun₁, hun₂, hun₃⟩ := (Pool.along_append exec before (a :: after) _).mp hun
  have hi : AccountSlot.Inv accountID calls s := AccountSlot.inv_run before (AccountSlot.inv_init hredis) hun₁
  obtain ⟨hi', hm⟩ := AccountSlot.moves_step hi hun₂
  refine ⟨fun r previous hcall hnone hok => ?_, fun _ => AccountSlot.release_still hi⟩
  have hslot : s'.world.slot accountID = some r := by
    cases hm with
    | still _ hold => exact nomatch hnone.symm.trans (hold _ hok)
    | claimed r' hcall' _ hslot _ =>
      rw [hcall] at hcall'
      cases hcall'
      exact hslot
    | removed _ hcall' => exact nomatch hcall.symm.trans hcall'
  refine AccountSlot.fate_run hi' hslot (fun j r' hj hnone' heq => ?_) after hun₃
  have hself : j = a.1 := AccountSlot.claim_inj hdistinct (heq ▸ hj) hcall
  rw [hself] at hnone'
  exact nomatch hnone'.symm.trans hok

def lateRelease : List SlotCall :=
  [.claim { connectionID := "first", expireAt := 10 ^ 9 }, .claim { connectionID := "second", expireAt := 10 ^ 9 },
    .release "first"]

theorem slot_accounting_late_release :
    let s := Pool.step exec (SlotState.init "account" (.init .redis 2 ∅ 0) lateRelease) (0, {})
    (∃! fate, Meets "account" lateRelease s { connectionID := "first", expireAt := 10 ^ 9 } (Pool.inOrder [1, 2]) fate) ∧
      Meets "account" lateRelease s { connectionID := "first", expireAt := 10 ^ 9 } (Pool.inOrder [1, 2]) (.handedTo 1) :=
  ⟨(slot_accounting "account" (.init .redis 2 ∅ 0) rfl lateRelease (by decide) [] (Pool.inOrder [1, 2]) (0, {})
    (by decide)).1 _ none rfl rfl rfl, rfl, rfl⟩

end GameServer.Gateway
