import GameServer.IdempotencyRules
import GameServer.Journal
import Mathlib.Algebra.BigOperators.Group.Finset.Basic
import Mathlib.Algebra.BigOperators.Group.Finset.Piecewise

/-!
# The table of keyed locks

`acquireIdempotencyLock` and `releaseIdempotencyLock` count the callers of an
entry; the entry is unlocked before its reference is dropped. Where a caller is
between the two is read off the commands it was answered, and the table is told
by where the callers are: an entry for a key exactly while somebody uses it,
with as many references as callers, and locked exactly while one of them holds it.
-/

namespace GameServer.UserCenter

/-! ## Where a caller is -/

inductive Stage
  | outside
  | waiting (lock : Nat × String) (entry : Nat)
  | holding (lock : Nat × String) (entry : Nat)
  | leaving (lock : Nat × String) (entry : Nat)
  deriving DecidableEq

namespace Stage

def uses : Stage → Option ((Nat × String) × Nat)
  | .outside => none
  | .waiting lock entry | .holding lock entry | .leaving lock entry => some (lock, entry)

def on (lock : Nat × String) (s : Stage) : Bool := s.uses.any fun x => x.1 == lock

def next : Stage → (cmd : Cmd) → Ans cmd → Stage
  | _, .acquireLock process key, entry => .waiting (process, key) entry
  | .waiting lock entry, .lock _, _ => .holding lock entry
  | .holding lock entry, .unlock _, _ => .leaving lock entry
  | _, .releaseLock _ _ _, _ => .outside
  | s, _, _ => s

theorem on_iff {lock : Nat × String} {s : Stage} : s.on lock = true ↔ ∃ entry, s.uses = some (lock, entry) := by
  cases s <;> simp [on, uses]

end Stage

def Stage.Allows : Stage → Cmd → Prop
  | .outside, cmd => cmd.isLock = false ∨ ∃ process key, cmd = .acquireLock process key
  | .waiting _ entry, cmd => cmd = .lock entry
  | .holding _ entry, cmd => cmd.isLock = false ∨ cmd = .unlock entry
  | .leaving lock entry, cmd => cmd = .releaseLock lock.1 lock.2 entry

def stage (journal : List (Pool.Entry Ans)) : Nat → Stage := Pool.place Stage.next (fun _ => .outside) journal

def users (n : Nat) (σ : Nat → Stage) (lock : Nat × String) : Nat :=
  ((Finset.range n).filter fun i => (σ i).on lock = true).card

theorem users_update {n i : Nat} (hi : i < n) (σ : Nat → Stage) (s : Stage) (lock : Nat × String) :
    users n (Function.update σ i s) lock + (if (σ i).on lock then 1 else 0) =
      users n σ lock + if s.on lock then 1 else 0 := by
  have hsum : ∀ τ : Nat → Stage, users n τ lock =
      (if (τ i).on lock then 1 else 0) + ∑ j ∈ (Finset.range n).erase i, if (τ j).on lock then 1 else 0 := by
    intro τ
    rw [users, Finset.card_filter]
    exact (Finset.add_sum_erase _ (fun j => if (τ j).on lock then 1 else 0) (Finset.mem_range.mpr hi)).symm
  have hrest : (∑ j ∈ (Finset.range n).erase i, if (Function.update σ i s j).on lock then 1 else 0) =
      ∑ j ∈ (Finset.range n).erase i, if (σ j).on lock then 1 else 0 :=
    Finset.sum_congr rfl fun j hj => by rw [Function.update_of_ne (Finset.ne_of_mem_erase hj)]
  rw [hsum, hsum σ, hrest, Function.update_self]
  omega

/-! ## The table and the callers -/

structure Kept (n : Nat) (t : LockTable) (σ : Nat → Stage) : Prop where
  within : ∀ i, n ≤ i → σ i = .outside
  entry : ∀ i a entry, (σ i).uses = some (a, entry) → t.table.lookup a = some entry
  used : ∀ a entry, t.table.lookup a = some entry → ∃ l, t.entries[entry]? = some l ∧
    l.refs = users n σ a ∧ 0 < users n σ a ∧ (l.locked = true ↔ ∃ i, σ i = .holding a entry)
  one : ∀ i j a entry, σ i = .holding a entry → σ j = .holding a entry → i = j
  apart : ∀ a b entry, t.table.lookup a = some entry → t.table.lookup b = some entry → a = b

theorem kept_empty (n : Nat) : Kept n ⟨∅, []⟩ fun _ => .outside where
  within _ _ := rfl
  entry _ _ _ h := by cases h
  used _ _ h := by cases h
  one _ _ _ _ h := by cases h
  apart _ _ _ h := by cases h

variable {n i : Nat} {t t' : LockTable} {σ : Nat → Stage} {a : Nat × String} {entry : Nat}

theorem users_eq_zero (h : ∀ i, ¬ (σ i).on a = true) : users n σ a = 0 := by
  rw [users, Finset.card_eq_zero, Finset.filter_eq_empty_iff]
  exact fun i _ => h i

theorem users_pos (hi : i < n) (hon : (σ i).on a = true) : 0 < users n σ a :=
  Finset.card_pos.mpr ⟨i, Finset.mem_filter.mpr ⟨Finset.mem_range.mpr hi, hon⟩⟩

theorem exists_on_of_users_pos (h : 0 < users n σ a) : ∃ i, (σ i).on a = true := by
  by_contra hno
  rw [users_eq_zero fun i hi => hno ⟨i, hi⟩] at h
  exact lt_irrefl _ h

namespace Kept

theorem lt_of_ne (h : Kept n t σ) (hi : σ i ≠ .outside) : i < n := by
  by_contra hge
  exact hi (h.within i (Nat.le_of_not_lt hge))

section
variable {s : Stage} (h : Kept n t σ) (hn : i < n) (hold : ∀ b x, (σ i).uses = some (b, x) → b = a)
  (hnew : ∀ b x, s.uses = some (b, x) → b = a)
include h hn hold hnew

theorem change {table : AList fun _ : Nat × String => Nat} {entries : List LockEntry} (entry : Nat)
    (htable : ∀ b, b ≠ a → table.lookup b = t.table.lookup b)
    (hentries : ∀ x l, x ≠ entry → t.entries[x]? = some l → entries[x]? = some l)
    (hfresh : ∀ b, b ≠ a → t.table.lookup b ≠ some entry)
    (hat : ∀ j x, (Function.update σ i s j).uses = some (a, x) → table.lookup a = some x)
    (hused : ∀ x, table.lookup a = some x → x = entry ∧ ∃ l : LockEntry, entries[entry]? = some l ∧
      l.refs = users n (Function.update σ i s) a ∧ 0 < users n (Function.update σ i s) a ∧
      (l.locked = true ↔ ∃ j, Function.update σ i s j = .holding a entry))
    (hone : ∀ j k x, Function.update σ i s j = .holding a x → Function.update σ i s k = .holding a x → j = k) :
    Kept n ⟨table, entries⟩ (Function.update σ i s) := by
  -- callers of other locks are not the one that moves
  have hother : ∀ b j x, b ≠ a → ((Function.update σ i s j).uses = some (b, x) ↔ (σ j).uses = some (b, x)) := by
    intro b j x hb
    by_cases hj : j = i
    · subst hj
      rw [Function.update_self]
      exact iff_of_false (fun hu => hb (hnew b x hu)) fun hu => hb (hold b x hu)
    · rw [Function.update_of_ne hj]
  have hholding : ∀ b j x, b ≠ a → (Function.update σ i s j = .holding b x ↔ σ j = .holding b x) := by
    intro b j x hb
    by_cases hj : j = i
    · subst hj
      rw [Function.update_self]
      exact iff_of_false (fun hs => hb (hnew b x (by rw [hs]; rfl))) fun hs => hb (hold b x (by rw [hs]; rfl))
    · rw [Function.update_of_ne hj]
  refine ⟨fun j hj => ?_, fun j b x hu => ?_, fun b x hl => ?_, fun j k b x hj hk => ?_, fun b b' x hl hl' => ?_⟩
  · rw [Function.update_of_ne (by omega)]
    exact h.within j hj
  · by_cases hb : b = a
    · subst hb
      exact hat j x hu
    · rw [htable b hb]
      exact h.entry j b x ((hother b j x hb).mp hu)
  · by_cases hb : b = a
    · subst hb
      obtain ⟨rfl, hl⟩ := hused x hl
      exact hl
    · rw [htable b hb] at hl
      obtain ⟨l, hget, hrefs, hpos, hlocked⟩ := h.used b x hl
      have husers : users n (Function.update σ i s) b = users n σ b := by
        refine congrArg Finset.card (Finset.filter_congr fun j _ => ?_)
        rw [Stage.on_iff, Stage.on_iff]
        exact exists_congr fun x => hother b j x hb
      have hx : x ≠ entry := fun hx => hfresh b hb (hx ▸ hl)
      refine ⟨l, hentries x l hx hget, husers ▸ hrefs, husers ▸ hpos, ?_⟩
      rw [hlocked]
      exact exists_congr fun j => (hholding b j x hb).symm
  · by_cases hb : b = a
    · subst hb
      exact hone j k x hj hk
    · exact h.one j k b x ((hholding b j x hb).mp hj) ((hholding b k x hb).mp hk)
  · by_cases hb : b = a
    · by_cases hb' : b' = a
      · rw [hb, hb']
      · rw [hb] at hl
        rw [htable b' hb', (hused x hl).1] at hl'
        exact absurd hl' (hfresh b' hb')
    · rw [htable b hb] at hl
      by_cases hb' : b' = a
      · rw [hb'] at hl'
        rw [(hused x hl').1] at hl
        exact absurd hl (hfresh b hb)
      · rw [htable b' hb'] at hl'
        exact h.apart b b' x hl hl'

theorem modify (hlook : t.table.lookup a = some entry) (hs : ∀ x, s.uses = some (a, x) → x = entry)
    (f : LockEntry → LockEntry)
    (hf : ∀ l : LockEntry, l.refs = users n σ a → (l.locked = true ↔ ∃ j, σ j = .holding a entry) →
      (f l).refs = users n (Function.update σ i s) a ∧ 0 < users n (Function.update σ i s) a ∧
      ((f l).locked = true ↔ ∃ j, Function.update σ i s j = .holding a entry))
    (hone : ∀ j, j ≠ i → s = .holding a entry → σ j ≠ .holding a entry) :
    Kept n (t.modify entry f) (Function.update σ i s) := by
  have hat : ∀ j x, (Function.update σ i s j).uses = some (a, x) → t.table.lookup a = some x := by
    intro j x hu
    by_cases hj : j = i
    · subst hj
      rw [Function.update_self] at hu
      rw [hs x hu, hlook]
    · rw [Function.update_of_ne hj] at hu
      exact h.entry j a x hu
  refine h.change hn hold hnew entry (fun _ _ => rfl) (fun x l hx hget => ?_)
    (fun b hb hl => hb (h.apart b a entry hl hlook)) hat (fun x hl => ?_) fun j k x hj hk => ?_
  · simp [Ne.symm hx, hget]
  · obtain rfl : x = entry := Option.some.inj (hl.symm.trans hlook)
    obtain ⟨l, hget, hrefs, -, hlocked⟩ := h.used a x hlook
    exact ⟨rfl, f l, by simp [hget], hf l hrefs hlocked⟩
  · by_contra hjk
    by_cases hki : k = i
    · subst hki
      rw [Function.update_self] at hk
      rw [Function.update_of_ne hjk] at hj
      obtain rfl := hs x (by rw [hk]; rfl)
      exact hone j hjk hk hj
    by_cases hji : j = i
    · subst hji
      rw [Function.update_self] at hj
      rw [Function.update_of_ne hki] at hk
      obtain rfl := hs x (by rw [hj]; rfl)
      exact hone k hki hj hk
    · rw [Function.update_of_ne hji] at hj
      rw [Function.update_of_ne hki] at hk
      exact hjk (h.one j k a x hj hk)

end

theorem holders_update {s : Stage} (hold : σ i ≠ .holding a entry) (hnew : s ≠ .holding a entry) :
    (∃ j, Function.update σ i s j = .holding a entry) ↔ ∃ j, σ j = .holding a entry := by
  refine exists_congr fun j => ?_
  by_cases hj : j = i
  · subst hj
    rw [Function.update_self]
    exact iff_of_false hnew hold
  · rw [Function.update_of_ne hj]

theorem acquire (h : Kept n t σ) (hn : i < n) (hi : σ i = .outside) (process : Nat) (key : String) :
    Kept n (t.acquire process key).2 (Function.update σ i (.waiting (process, key) (t.acquire process key).1)) := by
  have hoff : (σ i).on (process, key) = false := by rw [hi]; rfl
  have husers : ∀ entry, users n (Function.update σ i (.waiting (process, key) entry)) (process, key) =
      users n σ (process, key) + 1 := by
    intro entry
    have := users_update hn σ (.waiting (process, key) entry) (process, key)
    rw [hoff] at this
    simpa [Stage.on, Stage.uses] using this
  unfold LockTable.acquire
  cases hlook : t.table.lookup (process, key) with
  | some entry =>
    refine h.modify hn (fun _ _ hu => by rw [hi] at hu; cases hu) (fun _ _ hu => by cases hu; rfl) hlook
      (fun _ hu => by cases hu; rfl) _ (fun l hrefs hlocked => ?_) fun j _ hs => by cases hs
    rw [husers entry]
    refine ⟨?_, Nat.succ_pos _, hlocked.trans (holders_update (by rw [hi]; simp) (by simp)).symm⟩
    rw [hrefs]
    rfl
  | none =>
    -- nobody uses the key, and the entry is new
    have hfree : ∀ j x, (σ j).uses ≠ some ((process, key), x) := by
      intro j x hu
      rw [h.entry j _ x hu] at hlook
      cases hlook
    have hnobody : ∀ j x, Function.update σ i (.waiting (process, key) t.entries.length) j ≠ .holding (process, key) x := by
      intro j x hj
      by_cases hji : j = i
      · rw [hji, Function.update_self] at hj
        cases hj
      · rw [Function.update_of_ne hji] at hj
        exact hfree j x (by rw [hj]; rfl)
    have hzero : users n σ (process, key) = 0 := users_eq_zero fun j hon => by
      obtain ⟨x, hx⟩ := Stage.on_iff.mp hon
      exact hfree j x hx
    refine h.change hn (fun _ _ hu => by rw [hi] at hu; cases hu) (fun _ _ hu => by cases hu; rfl)
      t.entries.length (fun b hb => AList.lookup_insert_ne hb) (fun x l _ hget => ?_) (fun b _ hl => ?_)
      (fun j x hu => ?_) (fun x hl => ?_) fun j k x hj _ => absurd hj (hnobody j x)
    · rw [List.getElem?_append_left (List.getElem?_eq_some_iff.mp hget).1, hget]
    · obtain ⟨l, hget, -⟩ := h.used b _ hl
      exact absurd (List.getElem?_eq_some_iff.mp hget).1 (lt_irrefl _)
    · by_cases hji : j = i
      · rw [hji, Function.update_self] at hu
        cases hu
        exact AList.lookup_insert _
      · rw [Function.update_of_ne hji] at hu
        exact absurd hu (hfree j x)
    · rw [AList.lookup_insert, Option.some.injEq] at hl
      refine ⟨hl.symm, ⟨false, 1⟩, by simp, ?_, ?_, iff_of_false Bool.false_ne_true fun hex => ?_⟩
      · rw [husers, hzero]; rfl
      · rw [husers]; exact Nat.succ_pos _
      · obtain ⟨j, hj⟩ := hex
        exact hnobody j _ hj

theorem lock (h : Kept n t σ) (hi : σ i = .waiting a entry) (ht : t.lock entry = some t') :
    Kept n t' (Function.update σ i (.holding a entry)) := by
  have hn : i < n := h.lt_of_ne (by rw [hi]; simp)
  have hlook : t.table.lookup a = some entry := h.entry i a entry (by rw [hi]; rfl)
  obtain ⟨l, hget, hrefs, hpos, hlocked⟩ := h.used a entry hlook
  have husers : users n (Function.update σ i (.holding a entry)) a = users n σ a := by
    have := users_update hn σ (.holding a entry) a
    rw [hi] at this
    simpa [Stage.on, Stage.uses] using this
  obtain ⟨hopen, rfl⟩ : l.locked = false ∧ t' = t.modify entry fun l => { l with locked := true } := by
    unfold LockTable.lock at ht
    rw [hget] at ht
    obtain ⟨locked, refs⟩ := l
    cases locked with
    | true => cases ht
    | false => exact ⟨rfl, (Option.some.inj ht).symm⟩
  have hnobody : ∀ j, σ j ≠ .holding a entry := by
    intro j hj
    rw [hlocked.mpr ⟨j, hj⟩] at hopen
    cases hopen
  refine h.modify hn (fun _ _ hu => by rw [hi] at hu; cases hu; rfl) (fun _ _ hu => by cases hu; rfl) hlook
    (fun _ hu => by cases hu; rfl) _ (fun l hrefs _ => ?_) fun j _ _ => hnobody j
  rw [husers]
  exact ⟨hrefs, hpos, iff_of_true rfl ⟨i, Function.update_self ..⟩⟩

theorem unlock (h : Kept n t σ) (hi : σ i = .holding a entry) :
    Kept n (t.unlock entry) (Function.update σ i (.leaving a entry)) := by
  have hn : i < n := h.lt_of_ne (by rw [hi]; simp)
  have hlook : t.table.lookup a = some entry := h.entry i a entry (by rw [hi]; rfl)
  obtain ⟨-, -, -, hpos, -⟩ := h.used a entry hlook
  have husers : users n (Function.update σ i (.leaving a entry)) a = users n σ a := by
    have := users_update hn σ (.leaving a entry) a
    rw [hi] at this
    simpa [Stage.on, Stage.uses] using this
  refine h.modify hn (fun _ _ hu => by rw [hi] at hu; cases hu; rfl) (fun _ _ hu => by cases hu; rfl) hlook
    (fun _ hu => by cases hu; rfl) _ (fun l hrefs _ => ?_) fun j _ hs => by cases hs
  rw [husers]
  refine ⟨hrefs, hpos, iff_of_false Bool.false_ne_true ?_⟩
  -- it was the only one to hold the lock
  rintro ⟨j, hj⟩
  by_cases hji : j = i
  · rw [hji, Function.update_self] at hj
    cases hj
  · rw [Function.update_of_ne hji] at hj
    exact hji (h.one j i a entry hj hi)

theorem release (h : Kept n t σ) {process : Nat} {key : String} (hi : σ i = .leaving (process, key) entry) :
    Kept n (t.release process key entry) (Function.update σ i .outside) := by
  have hn : i < n := h.lt_of_ne (by rw [hi]; simp)
  have hlook : t.table.lookup (process, key) = some entry := h.entry i _ entry (by rw [hi]; rfl)
  have hold : ∀ b x, (σ i).uses = some (b, x) → b = (process, key) := fun _ _ hu => by rw [hi] at hu; cases hu; rfl
  have hnew : ∀ b x, Stage.outside.uses = some (b, x) → b = (process, key) := fun _ _ hu => by cases hu
  have husers : users n (Function.update σ i .outside) (process, key) + 1 = users n σ (process, key) := by
    have := users_update hn σ .outside (process, key)
    rw [hi] at this
    simpa [Stage.on, Stage.uses] using this
  have hholders : (∃ j, Function.update σ i .outside j = .holding (process, key) entry) ↔
      ∃ j, σ j = .holding (process, key) entry := holders_update (by rw [hi]; simp) (by simp)
  obtain ⟨l, hget, hrefs, -, -⟩ := h.used (process, key) entry hlook
  have hrefs' : l.refs - 1 = users n (Function.update σ i .outside) (process, key) := by omega
  have hlast : ((t.entries.modify entry fun l => { l with refs := l.refs - 1 })[entry]?.any fun l => l.refs == 0) =
      decide (users n (Function.update σ i .outside) (process, key) = 0) := by
    rw [Bool.eq_iff_iff]
    simp [hget, hrefs']
  unfold LockTable.release
  dsimp only [LockTable.modify]
  rw [hlast, hlook, beq_self_eq_true, Bool.and_true]
  by_cases hzero : users n (Function.update σ i .outside) (process, key) = 0
  · -- the last one leaves, and takes the entry out of the table
    have hnobody : ∀ j x, (Function.update σ i .outside j).uses ≠ some ((process, key), x) := by
      intro j x hu
      have hj : j < n := by
        by_contra hge
        rw [Function.update_of_ne (by omega), h.within j (by omega)] at hu
        cases hu
      exact absurd hzero (Nat.ne_of_gt (users_pos hj (Stage.on_iff.mpr ⟨x, hu⟩)))
    rw [if_pos (decide_eq_true hzero)]
    refine h.change hn hold hnew entry (fun b hb => AList.lookup_erase_ne hb) (fun x l hx hget => ?_)
      (fun b hb hl => hb (h.apart b _ entry hl hlook)) (fun j x hu => absurd hu (hnobody j x)) (fun x hl => ?_)
      fun j k x hj _ => absurd (by rw [hj]; rfl) (hnobody j x)
    · simp [Ne.symm hx, hget]
    · rw [AList.lookup_erase] at hl
      cases hl
  · rw [if_neg (by simpa using hzero)]
    refine h.modify hn hold hnew hlook (fun _ hu => by cases hu) _ (fun l hrefs hlocked => ?_) fun j _ hs => by cases hs
    exact ⟨by dsimp only; omega, Nat.pos_of_ne_zero hzero, hlocked.trans hholders.symm⟩

end Kept

/-! ## Commands -/

section
variable {c : DomainAuthComponent} {e : Env} {w w' : World} {cmd : Cmd}

theorem exec_locks (hc : cmd.isLock = false) {r : Ans cmd} (h : exec c i e w cmd = some (r, w')) :
    w'.locks = w.locks := by
  rcases exec_effect h with rfl | ⟨r₀, hx⟩
  · rfl
  · exact answer_locks (w := w.tick e.delay) hc hx

theorem exec_isLock (hc : cmd.isLock = true) {r : Ans cmd} (h : exec c i e w cmd = some (r, w')) :
    (w.tick e.delay).answer c i cmd e = some (r, w') := by
  rcases exec_cases h with h | ⟨text, hfailed, -⟩
  · exact h
  · cases cmd with
    | acquireLock _ _ | lock _ | unlock _ | releaseLock _ _ _ => cases hfailed
    | _ => cases hc

theorem next_of_not_isLock (hc : cmd.isLock = false) (s : Stage) (r : Ans cmd) : s.next cmd r = s := by
  cases cmd with
  | acquireLock _ _ | lock _ | unlock _ | releaseLock _ _ _ => cases hc
  | _ => cases s <;> rfl

end

/-! ## Handlers -/

abbrev LockFree {α : Type} (prog : Prog Ans α) : Prop := prog.Uses fun cmd => cmd.isLock = false

section
variable (c : DomainAuthComponent)

theorem lockFree_core (request : Request) : LockFree (request.core c) := by
  refine (confined_core c request).mono fun cmd hcmd => ?_
  cases cmd with
  | acquireLock _ _ | lock _ | unlock _ | releaseLock _ _ _ => cases hcmd
  | _ => rfl

theorem lockFree_reserve (record : IdempotencyRecord) (now : Time) : LockFree (reserve record now) := by
  refine (uses_reserve record now).mono fun cmd hcmd => ?_
  cases cmd with
  | acquireLock _ _ | lock _ | unlock _ | releaseLock _ _ _ => cases hcmd
  | _ => rfl

variable {execute : Handler} (hexecute : LockFree execute) (key : String) (operation : Operation) (requestHash : String)

include hexecute

theorem lockFree_executeReserved (reservationID : String) : LockFree (executeReserved c key reservationID execute) := by
  have hrenewals : LockFree (renewals c key reservationID) :=
    uses_renewals (P := fun cmd => cmd.isLock = false) rfl rfl (fun _ _ _ _ => rfl) c key reservationID
  refine (uses_withRenewal hrenewals hexecute).bind fun r => ?_
  obtain ⟨result, leaseErr⟩ := r
  cases result with
  | error err => exact ⟨rfl, fun _ => trivial⟩
  | ok result =>
    cases leaseErr with
    | some err => exact ⟨rfl, fun _ => trivial⟩
    | none =>
      refine ⟨rfl, fun now => ⟨rfl, fun r => ?_⟩⟩
      cases r <;> trivial

theorem lockFree_coordinate (polls : Nat) : LockFree (coordinate c key operation requestHash execute polls) :=
  Coordinates.coordinate (Φ := LockFree)
    { ret := fun _ => trivial
      now := fun _ hk => ⟨rfl, hk⟩
      newUUID := fun _ hk => ⟨rfl, hk⟩
      findRecord := fun _ _ hk => ⟨rfl, hk⟩
      reserve := fun record now _ hk => (lockFree_reserve record now).bind hk
      executeReserved := lockFree_executeReserved c hexecute key } polls

end

section
variable {c : DomainAuthComponent} {α : Type}

attribute [local irreducible] trimSpace

abbrev Staged (s : Stage) (prog : Prog Ans α) : Prop :=
  prog.Obeys Stage.Allows Stage.next (fun s _ => s = .outside) s

theorem staged_lockFree {prog : Prog Ans α} (hprog : LockFree prog) : Staged .outside prog :=
  Prog.Obeys.of_uses (fun _ hcmd => ⟨.inl hcmd, next_of_not_isLock hcmd _⟩) hprog

theorem staged_withIdempotency (site : Site) (key : String) (operation : Operation) (request : Request)
    {execute : Handler} (hexecute : LockFree execute) :
    Staged .outside (withIdempotency c site key operation request execute) := by
  unfold withIdempotency
  dsimp only
  split
  · exact staged_lockFree hexecute
  simp only [perform, Prog.perform_bind]
  refine ⟨.inr ⟨_, _, rfl⟩, fun entry => ⟨rfl, fun _ => ?_⟩⟩
  have hhold : ∀ cmd : Cmd, cmd.isLock = false → (Stage.holding (site.process, trimSpace key) entry).Allows cmd ∧
      ∀ r, (Stage.holding (site.process, trimSpace key) entry).next cmd r = .holding (site.process, trimSpace key) entry :=
    fun _ hcmd => ⟨.inl hcmd, next_of_not_isLock hcmd _⟩
  refine ((Prog.Obeys.of_uses hhold (lockFree_coordinate c hexecute _ _ _ _)).mono fun s result hs => ?_).bind
  subst hs
  exact ⟨.inr rfl, fun _ => ⟨rfl, fun _ => rfl⟩⟩

theorem staged_handler (call : Call) : Staged .outside (call.handler c) := by
  cases call with
  | serve site payload =>
    refine Prog.Obeys.bind (Prog.Obeys.mono (fun _ _ hs => hs) ?_)
    rcases serve_eq c payload with ⟨err, heq⟩ | ⟨request, -, heq⟩
    · rw [heq site]
      rfl
    · rw [heq site]
      exact staged_withIdempotency site _ _ request (lockFree_core c request)
  | start =>
    have hfree : LockFree (Call.handler c .start) := ⟨rfl, fun _ => ⟨rfl, fun _ => trivial⟩⟩
    exact staged_lockFree hfree
  | expireToken tokenID =>
    have hfree : LockFree (Call.handler c (.expireToken tokenID)) := ⟨rfl, fun _ => trivial⟩
    exact staged_lockFree hfree
  | expireRecord key =>
    have hfree : LockFree (Call.handler c (.expireRecord key)) := ⟨rfl, fun _ => trivial⟩
    exact staged_lockFree hfree

/-! ## Runs -/

theorem Kept.other {cmd : Cmd} {e : Env} {w w' : World} {r : Ans cmd} (h : Kept n w.locks σ) (hcmd : cmd.isLock = false)
    (hx : exec c i e w cmd = some (r, w')) : Kept n w'.locks (Function.update σ i ((σ i).next cmd r)) := by
  rw [next_of_not_isLock hcmd, Function.update_eq_self, exec_locks hcmd hx]
  exact h

theorem Kept.step {cmd : Cmd} {e : Env} {w w' : World} {r : Ans cmd} (h : Kept n w.locks σ) (hn : i < n)
    (hallows : (σ i).Allows cmd) (hx : exec c i e w cmd = some (r, w')) :
    Kept n w'.locks (Function.update σ i ((σ i).next cmd r)) := by
  cases hi : σ i with
  | outside =>
    rw [hi] at hallows
    rcases hallows with hcmd | ⟨process, key, rfl⟩
    · exact hi ▸ h.other hcmd hx
    · cases exec_isLock rfl hx
      exact h.acquire hn hi process key
  | waiting lock entry =>
    rw [hi] at hallows
    obtain rfl := hallows
    obtain ⟨locks, hlock, heq⟩ := Option.map_eq_some_iff.mp (exec_isLock rfl hx)
    cases heq
    exact h.lock hi hlock
  | holding lock entry =>
    rw [hi] at hallows
    rcases hallows with hcmd | rfl
    · exact hi ▸ h.other hcmd hx
    · cases exec_isLock rfl hx
      exact h.unlock hi
  | leaving lock entry =>
    rw [hi] at hallows
    obtain rfl := hallows
    cases exec_isLock rfl hx
    exact h.release hi

theorem kept_run (c : DomainAuthComponent) (w : World) (calls : List Call) (as : List (Nat × Env)) :
    Kept calls.length (Pool.run (exec c) (State.init c { w with locks := ⟨∅, []⟩ } calls) as).world.locks
      (stage (Pool.journal (exec c) (State.init c { w with locks := ⟨∅, []⟩ } calls) as)) := by
  have hstaged : ∀ (i : Nat) (prog : Prog Ans Reply), (calls.map (Call.handler c))[i]? = some prog →
      Staged .outside prog := Pool.forall_map fun _ call _ => staged_handler call
  refine (Pool.inv_journal (J := fun (w : World) j => Kept calls.length w.locks (stage j)) hstaged (kept_empty calls.length) ?_ as).1
  intro i e w j cmd r w' hi hkept hallows hx
  rw [List.length_map] at hi
  rw [stage, Pool.place_snoc]
  exact hkept.step hi hallows hx

end

/-- Any callers of the user center, in any interleaving, from empty lock tables:
callers that hold or wait for the same key have the same entry, at most one of
them is between `Lock` and `Unlock`, and the table has an entry for a key exactly
while somebody uses it, with as many references as callers. -/
theorem lock_table_sound (c : DomainAuthComponent) (w : World) (calls : List Call) (as : List (Nat × Env)) :
    let s := Pool.run (exec c) (State.init c { w with locks := ⟨∅, []⟩ } calls) as
    let place := stage (Pool.journal (exec c) (State.init c { w with locks := ⟨∅, []⟩ } calls) as)
    (∀ i j lock x y, (place i).uses = some (lock, x) → (place j).uses = some (lock, y) → x = y) ∧
      (∀ i j lock x y, place i = .holding lock x → place j = .holding lock y → i = j) ∧
      (∀ lock, (∃ x, s.world.locks.table.lookup lock = some x) ↔ ∃ i, (place i).on lock = true) ∧
      ∀ lock x, s.world.locks.table.lookup lock = some x →
        ∃ l, s.world.locks.entries[x]? = some l ∧ l.refs = users calls.length place lock := by
  intro s place
  have h : Kept calls.length s.world.locks place := kept_run c w calls as
  have hsame : ∀ i j lock x y, (place i).uses = some (lock, x) → (place j).uses = some (lock, y) → x = y :=
    fun i j lock x y hi hj => Option.some.inj ((h.entry i lock x hi).symm.trans (h.entry j lock y hj))
  refine ⟨hsame, fun i j lock x y hi hj => ?_, fun lock => ⟨fun hx => ?_, fun hon => ?_⟩, fun lock x hx => ?_⟩
  · obtain rfl := hsame i j lock x y (by rw [hi]; rfl) (by rw [hj]; rfl)
    exact h.one i j lock x hi hj
  · obtain ⟨x, hx⟩ := hx
    obtain ⟨-, -, -, hpos, -⟩ := h.used lock x hx
    exact exists_on_of_users_pos hpos
  · obtain ⟨i, hon⟩ := hon
    obtain ⟨x, hu⟩ := Stage.on_iff.mp hon
    exact ⟨x, h.entry i lock x hu⟩
  · obtain ⟨l, hget, hrefs, -, -⟩ := h.used lock x hx
    exact ⟨l, hget, hrefs⟩

end GameServer.UserCenter
