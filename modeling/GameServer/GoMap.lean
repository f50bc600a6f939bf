import Mathlib.Data.List.AList

/-!
# Finite maps: iteration order and patches

A Go map is an association list, read through `lookup`. A loop over it visits
the entries in an order the runtime picks: the loop takes a list of codes, and
every order is the one of some codes.

A patch says, key by key, what becomes of a map: set, removed or left alone.
-/

namespace GameServer

/-! ## Iteration order -/

section
variable {α : Type*}

/-- The elements of `l`, in the order the codes say: each is put back at the
place its code names. -/
def shuffle : List Nat → List α → List α
  | _, [] => []
  | order, a :: l => (shuffle order.tail l).insertIdx (order.headD 0 % (l.length + 1)) a

theorem length_shuffle : ∀ (order : List Nat) (l : List α), (shuffle order l).length = l.length
  | _, [] => rfl
  | order, a :: l => by
    have hle : order.headD 0 % (l.length + 1) ≤ (shuffle order.tail l).length := by
      rw [length_shuffle order.tail l]
      exact Nat.le_of_lt_succ (Nat.mod_lt _ (Nat.succ_pos _))
    rw [shuffle, List.length_insertIdx_of_le_length hle, length_shuffle order.tail l, List.length_cons]

theorem shuffle_perm : ∀ (order : List Nat) (l : List α), (shuffle order l).Perm l
  | _, [] => .nil
  | order, a :: l => by
    have hle : order.headD 0 % (l.length + 1) ≤ (shuffle order.tail l).length := by
      rw [length_shuffle order.tail l]
      exact Nat.le_of_lt_succ (Nat.mod_lt _ (Nat.succ_pos _))
    exact (List.perm_insertIdx a _ hle).trans ((shuffle_perm order.tail l).cons a)

@[simp] theorem mem_shuffle {order : List Nat} {l : List α} {a : α} : a ∈ shuffle order l ↔ a ∈ l :=
  (shuffle_perm order l).mem_iff

theorem insertIdx_append_length (a : α) : ∀ s t : List α, (s ++ t).insertIdx s.length a = s ++ a :: t
  | [], _ => rfl
  | b :: s, t => congrArg (b :: ·) (insertIdx_append_length a s t)

theorem exists_shuffle_of_perm : ∀ {l l' : List α}, l'.Perm l → ∃ order, shuffle order l = l'
  | [], _, h => ⟨[], h.eq_nil.symm⟩
  | a :: l, l', h => by
    obtain ⟨s, t, rfl⟩ := List.append_of_mem (h.mem_iff.mpr (List.mem_cons_self ..))
    have hst : (s ++ t).Perm l := (List.perm_middle.symm.trans h).cons_inv
    obtain ⟨order, horder⟩ := exists_shuffle_of_perm hst
    have hlen : s.length < l.length + 1 := by
      have := hst.length_eq
      simp at this
      omega
    refine ⟨s.length :: order, ?_⟩
    simp only [shuffle, List.tail_cons, List.headD_cons, Nat.mod_eq_of_lt hlen, horder]
    exact insertIdx_append_length a s t

end

/-! ## Patches -/

/-- `none` leaves a key alone, `some none` removes it, `some (some b)` sets it. -/
abbrev Patch (α β : Type*) := α → Option (Option β)

namespace Patch
variable {α β : Type*}

def apply (p : Patch α β) (f : α → Option β) : α → Option β := fun a => (p a).getD (f a)

def andThen (p q : Patch α β) : Patch α β := fun a => (q a).or (p a)

theorem apply_andThen (p q : Patch α β) (f : α → Option β) : (p.andThen q).apply f = q.apply (p.apply f) := by
  funext a
  cases h : q a <;> simp [apply, andThen, h]

end Patch

/-! ## Loops over maps -/

section
variable {α : Type*} {β : Type*}

def mapAll (f : α → β → β) (m : AList fun _ : α => β) : AList fun _ : α => β :=
  ⟨m.entries.map fun e => ⟨e.1, f e.1 e.2⟩, by
    have h := m.nodupKeys
    unfold List.NodupKeys List.keys at h ⊢
    rwa [List.map_map]⟩

def keepAll (p : α → β → Bool) (m : AList fun _ : α => β) : AList fun _ : α => β :=
  ⟨m.entries.filter fun e => p e.1 e.2, m.nodupKeys.sublist List.filter_sublist⟩

variable [DecidableEq α]

theorem lookup_keepAll (p : α → β → Bool) (m : AList fun _ : α => β) (a : α) :
    (keepAll p m).lookup a = (m.lookup a).filter (p a) := by
  ext b
  rw [Option.filter_eq_some_iff, ← Option.mem_def, ← Option.mem_def, AList.mem_lookup_iff, AList.mem_lookup_iff]
  exact List.mem_filter

theorem lookup_mapAll (f : α → β → β) (m : AList fun _ : α => β) (a : α) :
    (mapAll f m).lookup a = (m.lookup a).map (f a) := by
  cases h : m.lookup a with
  | some b =>
    rw [Option.map_some]
    exact AList.mem_lookup_iff.mpr (List.mem_map.mpr ⟨⟨a, b⟩, AList.mem_lookup_iff.mp h, rfl⟩)
  | none =>
    rw [Option.map_none, AList.lookup_eq_none]
    intro hmem
    obtain ⟨e, he, rfl⟩ := List.mem_map.mp (AList.mem_keys.mp hmem)
    have he : e ∈ m.entries.map fun e => (⟨e.1, f e.1 e.2⟩ : Sigma fun _ : α => β) := he
    obtain ⟨⟨a, b⟩, hb, rfl⟩ := List.mem_map.mp he
    have := AList.mem_lookup_iff.mpr hb
    rw [h] at this
    cases this

end

/-! ## Writing lists into maps -/

section
variable {α : Type*} {β : Type*} [DecidableEq α]

def insertAll (key : β → α) (m : AList fun _ : α => β) (l : List β) : AList fun _ : α => β :=
  l.foldl (fun m b => m.insert (key b) b) m

def eraseAll (m : AList fun _ : α => β) (l : List α) : AList fun _ : α => β :=
  l.foldl (fun m a => m.erase a) m

theorem lookup_insertAll_of_forall_ne {key : β → α} {a : α} : ∀ {l : List β} {m : AList fun _ : α => β},
    (∀ b ∈ l, key b ≠ a) → (insertAll key m l).lookup a = m.lookup a
  | [], _, _ => rfl
  | b :: l, m, h => by
    have hb : a ≠ key b := (h b (List.mem_cons_self ..)).symm
    have ih := lookup_insertAll_of_forall_ne (m := m.insert (key b) b) fun c hc => h c (List.mem_cons_of_mem _ hc)
    exact ih.trans (AList.lookup_insert_ne hb)

theorem key_mem_insertAll {key : β → α} {b : β} : ∀ {l : List β} {m : AList fun _ : α => β}, b ∈ l ∨ key b ∈ m →
    key b ∈ insertAll key m l
  | [], _, h => h.resolve_left List.not_mem_nil
  | c :: l, m, h => by
    refine key_mem_insertAll (l := l) ?_
    rw [AList.mem_insert]
    rcases h with h | h
    · rcases List.mem_cons.mp h with rfl | h
      · exact .inr (.inl rfl)
      · exact .inl h
    · exact .inr (.inr h)

theorem lookup_insertAll_of_mem {key : β → α} {b : β} : ∀ {l : List β} {m : AList fun _ : α => β},
    (∀ c ∈ l, key c = key b → c = b) → b ∈ l → (insertAll key m l).lookup (key b) = some b
  | [], _, _, hb => nomatch hb
  | c :: l, m, h, hb => by
    have hl : ∀ d ∈ l, key d = key b → d = b := fun d hd => h d (List.mem_cons_of_mem _ hd)
    by_cases hmem : b ∈ l
    · exact lookup_insertAll_of_mem (m := m.insert (key c) c) hl hmem
    · have hne : ∀ d ∈ l, key d ≠ key b := fun d hd hk => hmem (hl d hd hk ▸ hd)
      obtain rfl : b = c := (List.mem_cons.mp hb).resolve_right hmem
      exact (lookup_insertAll_of_forall_ne (m := m.insert (key b) b) hne).trans (AList.lookup_insert m)

theorem lookup_insertAll_eq_some {key : β → α} {a : α} {b : β} : ∀ {l : List β} {m : AList fun _ : α => β},
    (insertAll key m l).lookup a = some b → key b = a ∨ m.lookup a = some b
  | [], _, h => .inr h
  | c :: l, m, h => by
    rcases lookup_insertAll_eq_some (m := m.insert (key c) c) h with h | h
    · exact .inl h
    · by_cases hc : a = key c
      · subst hc
        rw [AList.lookup_insert, Option.some.injEq] at h
        exact .inl (congrArg key h.symm)
      · rw [AList.lookup_insert_ne hc] at h
        exact .inr h

theorem lookup_eraseAll (a : α) : ∀ (l : List α) (m : AList fun _ : α => β),
    (eraseAll m l).lookup a = if a ∈ l then none else m.lookup a
  | [], _ => by simp [eraseAll]
  | b :: l, m => by
    have ih := lookup_eraseAll a l (m.erase b)
    by_cases hb : a = b
    · subst hb
      simpa [eraseAll] using ih
    · simpa [eraseAll, hb, AList.lookup_erase_ne hb] using ih

end

end GameServer
