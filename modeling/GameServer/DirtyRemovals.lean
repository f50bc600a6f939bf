import GameServer.DirtyTracking

/-!
# Dirty tracking: removals

The items of a list are numbered without gaps, whatever has been done to it, so a
deletion takes its last position away. A position that is gone from the model
and not under a dirty path stays in the document: the update only writes.
-/

namespace GameServer.Md

section
variable {F : Type} {stored : Document F} {m : Model F}

/-! ## Lists -/

theorem index_inj {i j : Nat} : index i = index j ↔ i = j := by
  constructor
  · intro h
    exact natRepr_inj (congrArg Key.text h)
  · exact congrArg index

theorem item?_eq_some {n j : Nat} {k : Key} : item? n k = some j ↔ index j = k ∧ j < n := by
  unfold item?
  constructor
  · intro h
    exact ⟨by simpa using List.find?_some h, List.mem_range.mp (List.mem_of_find?_eq_some h)⟩
  · rintro ⟨rfl, hj⟩
    cases hfind : (List.range n).find? fun j' => index j' = index j with
    | none =>
      have := List.find?_eq_none.mp hfind j (List.mem_range.mpr hj)
      simp at this
    | some j' =>
      have := List.find?_some hfind
      simp only [decide_eq_true_eq, index_inj] at this
      rw [this]

theorem item?_index_of_le {n j : Nat} (h : n ≤ j) : item? n (index j) = none := by
  cases hitem : item? n (index j) with
  | none => rfl
  | some j' =>
    obtain ⟨heq, hlt⟩ := item?_eq_some.mp hitem
    rw [index_inj] at heq
    omega

theorem Content.listed_init (v : Content F) (path : Path) : (v.init path).Listed := by
  intro p n hlist i
  rw [Content.isSome_init]
  obtain ⟨head, hhead, heq⟩ := Option.map_eq_some_iff.mp hlist
  cases head <;> cases heq
  exact v.listed p n hhead i

theorem Tree.Listed.graft {t : Tree F} (ht : t.Listed) {pos : Path} {c : Tree F} (hc : c.Listed) (hroot : (c []).isSome)
    (hpos : ∀ p i, pos = p ++ [index i] → (∃ n, t p = some (.list n)) → (t pos).isSome) : (t.graft pos c).Listed := by
  intro p n hlist i
  by_cases hpre : pos <+: p
  · obtain ⟨r, rfl⟩ := hpre
    rw [Tree.graft_append] at hlist
    rw [List.append_assoc, Tree.graft_append]
    exact hc r n hlist i
  · rw [Tree.graft_of_not hpre] at hlist
    by_cases hnew : pos <+: p ++ [index i]
    · rcases List.prefix_concat_iff.mp hnew with heq | hold
      · have hthere := hpos p i heq ⟨n, hlist⟩
        rw [heq] at hthere
        have hgraft := Tree.graft_append t pos [] c
        rw [List.append_nil, heq] at hgraft
        rw [heq, hgraft]
        exact iff_of_true hroot ((ht p n hlist i).mp hthere)
      · exact absurd hold hpre
    · rw [Tree.graft_of_not hnew]
      exact ht p n hlist i

variable {h : Path} {tag : Key} {m' : Model F}

theorem listed_put (ht : m.tree.Listed) {k : Key} {v : Content F} (hput : m.put h tag k v = some m')
    (hpos : ∀ i n, k = index i → m.tree (h ++ [tag]) = some (.list n) → i < n) : m'.tree.Listed := by
  obtain ⟨name, fields, hnode, rfl⟩ := put_eq_some hput
  rw [tree_write]
  refine ht.graft (v.listed_init _) ?_ fun p i heq hlist => ?_
  · obtain ⟨_, hroot⟩ := v.init_root (name ++ [tag, k])
    rw [hroot]
    rfl
  · have heq' : (h ++ [tag]) ++ [k] = p ++ [index i] := by rw [← heq, List.append_assoc]; rfl
    obtain ⟨rfl, hk⟩ := List.append_inj' heq' rfl
    obtain ⟨n, hlist⟩ := hlist
    rw [heq]
    exact (ht _ n hlist i).mpr (hpos i n (List.singleton_injective hk) hlist)

theorem listed_appendOne (ht : m.tree.Listed) {v : Content F} (happend : m.appendOne h tag v = some m') :
    m'.tree.Listed := by
  obtain ⟨n, m₁, hlist, hput, rfl⟩ := appendOne_eq_some happend
  obtain ⟨name, fields, hnode, rfl⟩ := put_eq_some hput
  obtain ⟨_, hroot⟩ := v.init_root (name ++ [tag, index n])
  have hpos : (h ++ [tag]) ++ [index n] = h ++ [tag, index n] := by simp
  have hold : ¬ h ++ [tag, index n] <+: h ++ [tag] := by
    intro hpre
    have hlength := hpre.length_le
    simp at hlength
  intro p n' hlist' i
  dsimp only [tree_write] at hlist' ⊢
  rw [Tree.isSome_setHead (by rw [Tree.graft_of_not hold, hlist]; rfl)]
  unfold Tree.setHead at hlist'
  split at hlist'
  · rename_i heq
    cases hlist'
    rw [heq]
    by_cases hin : i = n
    · have hgraft := Tree.graft_append m.tree (h ++ [tag, index n]) [] (v.init (name ++ [tag, index n]))
      rw [List.append_nil] at hgraft
      rw [hin, hpos, hgraft, hroot]
      simp
    · rw [Tree.graft_of_not, ht _ n hlist i]
      · omega
      · intro hpre
        rw [← hpos] at hpre
        have heq' := hpre.eq_of_length (by simp)
        exact hin (index_inj.mp (List.singleton_injective (List.append_cancel_left heq'))).symm
  · rename_i hne
    by_cases hpre : h ++ [tag, index n] <+: p
    · obtain ⟨r, rfl⟩ := hpre
      rw [Tree.graft_append] at hlist'
      rw [List.append_assoc, Tree.graft_append]
      exact v.listed_init _ r n' hlist' i
    · rw [Tree.graft_of_not hpre] at hlist'
      rw [Tree.graft_of_not]
      · exact ht p n' hlist' i
      · intro hnew
        rcases List.prefix_concat_iff.mp hnew with heq | hunder
        · rw [← hpos] at heq
          exact hne (List.append_inj' heq rfl).1.symm
        · exact hpre hunder

theorem listed_append (ht : m.tree.Listed) {vs : List (Content F)} (happend : m.append h tag vs = some m') :
    m'.tree.Listed :=
  foldlM_keeps (fun _ _ _ hm => listed_appendOne hm) vs ht happend

theorem listed_without (ht : m.tree.Listed) {taken : Path → Bool}
    (hedge : ∀ p i n, taken p = false → taken (p ++ [index i]) = true → m.tree p ≠ some (.list n)) :
    (m.rearrange (without taken) (without taken)).tree.Listed := by
  intro p n hlist i
  rw [tree_rearrange, without] at hlist ⊢
  split at hlist
  · cases hlist
  · rename_i hkept
    rw [Option.bind_some] at hlist
    rw [if_neg, Option.bind_some]
    · exact ht p n hlist i
    · exact fun htaken => hedge p i n (Bool.eq_false_iff.mpr hkept) htaken hlist

theorem inside_edge {p q : Path} {k : Key} (hq : inside p q = false) (hqk : inside p (q ++ [k]) = true) : q = p := by
  obtain ⟨hpre, hne⟩ := inside_iff.mp hqk
  rcases List.prefix_concat_iff.mp hpre with heq | hpre
  · exact absurd heq.symm hne
  · by_contra hne'
    rw [inside_iff.mpr ⟨hpre, hne'⟩] at hq
    cases hq

theorem listed_deleteAt (ht : m.tree.Listed) {i : Nat} (hdelete : m.deleteAt h tag i = some m') :
    m'.tree.Listed ∧ ∃ n, i < n ∧ m.tree (h ++ [tag]) = some (.list n) ∧ m'.tree (h ++ [tag]) = some (.list (n - 1)) := by
  obtain ⟨n, hlist, hin, rfl⟩ := deleteAt_eq_some hdelete
  refine ⟨fun p n' hlist' j => ?_, n, hin, hlist, if_pos rfl⟩
  dsimp only at hlist' ⊢
  have hself : (m.rearrange (shift (h ++ [tag]) (itemBefore n i)) (shift (h ++ [tag]) (itemAfter n i))).tree (h ++ [tag]) =
      some (.list n) := by
    rw [tree_rearrange, shift_outside (inside_self _), Option.bind_some, hlist]
  rw [Tree.isSome_setHead (by rw [hself]; rfl)]
  unfold Tree.setHead at hlist'
  split at hlist'
  · rename_i heq
    cases hlist'
    rw [heq, tree_rearrange, shift_append]
    by_cases hj : j < n
    · simp only [itemBefore, item?_eq_some.mpr ⟨rfl, hj⟩]
      split
      · rw [Option.map_some, Option.bind_some, ht _ n hlist j]
        omega
      · split
        · rw [Option.map_some, Option.bind_some, ht _ n hlist (j + 1)]
          omega
        · simp only [Option.map_none, Option.bind_none, Option.isSome_none, Bool.false_eq_true, false_iff]
          omega
    · simp only [itemBefore, item?_index_of_le (Nat.le_of_not_lt hj)]
      rw [Option.map_some, Option.bind_some, ht _ n hlist j]
      omega
  · rename_i hne
    rw [tree_rearrange] at hlist' ⊢
    by_cases hinside : inside (h ++ [tag]) p = true
    · obtain ⟨k, r, rfl⟩ := exists_of_inside hinside
      obtain ⟨q, hold, hlist'⟩ := Option.bind_eq_some_iff.mp hlist'
      obtain ⟨k', hk', rfl⟩ := shift_cases hold
      have hchild := ht _ n' hlist' j
      rw [List.append_assoc, List.cons_append] at hchild ⊢
      rw [shift_append, hk', Option.map_some, Option.bind_some]
      exact hchild
    · rw [Bool.not_eq_true] at hinside
      rw [shift_outside hinside, Option.bind_some] at hlist'
      rw [shift_outside, Option.bind_some]
      · exact ht p n' hlist' j
      · rw [Bool.eq_false_iff]
        exact fun hchild => hne (inside_edge hinside hchild)

theorem listed_deleteAll : ∀ (is : List Nat) {m m' : Model F}, m.tree.Listed →
    is.foldlM (fun m i => m.deleteAt h tag i) m = some m' →
    m'.tree.Listed ∧ ∀ n, m.tree (h ++ [tag]) = some (.list n) → is.length ≤ n ∧ m'.tree (h ++ [tag]) = some (.list (n - is.length))
  | [], _, _, ht, hrun => by
    cases hrun
    exact ⟨ht, fun n hlist => ⟨Nat.zero_le n, hlist⟩⟩
  | i :: is, m, m', ht, hrun => by
    rw [List.foldlM_cons] at hrun
    obtain ⟨m₁, hdelete, hrun⟩ := Option.bind_eq_some_iff.mp hrun
    obtain ⟨ht₁, n₁, hin, hlist₁, hlist₁'⟩ := listed_deleteAt ht hdelete
    obtain ⟨ht', hlist'⟩ := listed_deleteAll is ht₁ hrun
    refine ⟨ht', fun n hlist => ?_⟩
    rw [hlist₁] at hlist
    cases hlist
    obtain ⟨hle, heq⟩ := hlist' _ hlist₁'
    rw [List.length_cons, Nat.add_comm, ← Nat.sub_sub]
    exact ⟨by omega, heq⟩

theorem listed_step (ht : m.tree.Listed) {op : Op F} (hstep : m.step op = some m') : m'.tree.Listed := by
  cases op with
  | set h tag k v =>
    obtain ⟨hmap, hput⟩ := set_eq_some hstep
    refine listed_put ht hput fun i n _ hlist => ?_
    rw [hmap] at hlist
    cases hlist
  | delete h tag k =>
    obtain ⟨hmap, rfl⟩ := remove_eq_some hstep
    refine listed_without ht fun p i n hkept htaken hlist => ?_
    rcases List.prefix_concat_iff.mp (List.isPrefixOf_iff_prefix.mp htaken) with heq | hpre
    · have heq' : (h ++ [tag]) ++ [k] = p ++ [index i] := by rw [← heq, List.append_assoc]; rfl
      rw [← (List.append_inj' heq' rfl).1, hmap] at hlist
      cases hlist
    · rw [List.isPrefixOf_iff_prefix.mpr hpre] at hkept
      cases hkept
  | clear h tag =>
    obtain ⟨hmap, rfl⟩ := clear_eq_some hstep
    refine listed_without ht fun p i n hkept htaken hlist => ?_
    rw [inside_edge hkept htaken, hmap] at hlist
    cases hlist
  | append h tag vs => exact listed_append ht hstep
  | update h tag i v =>
    obtain ⟨n, hlist, hin, hput⟩ := update_eq_some hstep
    refine listed_put ht hput fun j n' hj hlist' => ?_
    rw [hlist] at hlist'
    cases hlist'
    rwa [← index_inj.mp hj]
  | deleteAt h tag i => exact (listed_deleteAt ht hstep).1
  | deleteMore h tag is => exact (listed_deleteAll _ ht hstep).1
  | save p fields =>
    obtain ⟨name, old, hnode, rfl⟩ := save_eq_some hstep
    have hsome : (m.tree p).isSome := by rw [hnode]; rfl
    refine ht.graft (fun r n hlist i => ?_) ?_ fun _ _ _ _ => hsome
    · unfold Tree.at at hlist ⊢
      rw [Tree.isSome_setHead hsome, ← List.append_assoc]
      unfold Tree.setHead at hlist
      split at hlist
      · cases hlist
      · exact ht _ n hlist i
    · rw [Tree.at, List.append_nil, Tree.isSome_setHead hsome]
      exact hsome
  | replace p v =>
    obtain ⟨name, old, hnode, rfl⟩ := replace_eq_some hstep
    refine ht.graft (v.listed_init name) ?_ fun _ _ _ _ => by rw [hnode]; rfl
    obtain ⟨_, hroot⟩ := v.init_root name
    rw [hroot]
    rfl

/-! ## Removals that are lost -/

def Solid (m : Model F) : Prop := ∀ x ∈ m.dirty, (x.2.content m.tree []).isSome

theorem Inv.solid (hi : Inv stored m) : Solid m := by
  intro x hx
  obtain ⟨hhere, fields, hlive⟩ := hi.live x hx
  rw [hhere, Data.content, Tree.at, List.append_nil, hlive]
  rfl

theorem Solid.rearrange (hs : Solid m) {old new : Path → Option Path} (hinv : ∀ q q', new q = some q' → old q' = some q) :
    Solid (m.rearrange old new) := by
  intro x hx
  obtain ⟨y, hy, rfl⟩ := List.mem_map.mp hx
  have hcontent := hs y hy
  dsimp only
  cases hdata : y.2 with
  | gone content =>
    rw [hdata] at hcontent
    exact hcontent
  | here q =>
    rw [hdata, Data.content, Tree.at, List.append_nil] at hcontent
    unfold Data.move
    dsimp only
    cases hnew : new q with
    | none =>
      dsimp only [Data.content, Tree.at]
      rwa [List.append_nil]
    | some q' =>
      dsimp only [Data.content, Tree.at]
      rwa [List.append_nil, tree_rearrange, hinv q q' hnew, Option.bind_some]

theorem Solid.setHead (hs : Solid m) {p : Path} {head : Head F} (hp : (m.tree p).isSome) :
    Solid { m with tree := m.tree.setHead p head } := by
  intro x hx
  have hcontent := hs x hx
  cases hdata : x.2 with
  | gone content =>
    rw [hdata] at hcontent
    exact hcontent
  | here q =>
    rw [hdata] at hcontent
    dsimp only [Data.content, Tree.at] at hcontent ⊢
    rwa [Tree.isSome_setHead hp]

theorem without_inv {taken : Path → Bool} {q q' : Path} (h : without taken q = some q') : without taken q' = some q := by
  unfold without at h ⊢
  split at h
  · cases h
  · rename_i hkept
    cases h
    exact if_neg hkept

theorem itemAfter_inv {n i : Nat} {k k' : Key} (h : itemAfter n i k = some k') : itemBefore n i k' = some k := by
  unfold itemAfter at h
  split at h
  · rename_i hnone
    cases h
    simp only [itemBefore, hnone]
  · rename_i j hitem
    obtain ⟨hk, hj⟩ := item?_eq_some.mp hitem
    split at h
    · rename_i hlt
      cases h
      simp only [itemBefore, hitem, if_pos hlt]
    · rename_i hge
      split at h
      · cases h
      · rename_i hne
        cases h
        have hback : item? n (index (j - 1)) = some (j - 1) := item?_eq_some.mpr ⟨rfl, by omega⟩
        simp only [itemBefore, hback]
        rw [if_neg (by omega), if_pos (by omega), Nat.sub_add_cancel (by omega), hk]

theorem shift_inv {p : Path} {before after : Key → Option Key} (hinv : ∀ k k', after k = some k' → before k' = some k)
    {q q' : Path} (h : shift p after q = some q') : shift p before q' = some q := by
  by_cases hinside : inside p q = true
  · obtain ⟨k, r, rfl⟩ := exists_of_inside hinside
    obtain ⟨k', hk', rfl⟩ := shift_cases h
    rw [shift_append, hinv k k' hk', Option.map_some]
  · rw [Bool.not_eq_true] at hinside
    rw [shift_outside hinside] at h
    cases h
    exact shift_outside hinside

theorem paths_rearrange (m : Model F) (old new : Path → Option Path) :
    (m.rearrange old new).dirty.map Prod.fst = m.dirty.map Prod.fst := by
  rw [Model.rearrange, List.map_map]
  rfl

theorem Solid.deleteAt (hs : Solid m) {i : Nat} (hdelete : m.deleteAt h tag i = some m') :
    Solid m' ∧ m'.dirty.map Prod.fst = m.dirty.map Prod.fst := by
  obtain ⟨n, hlist, -, rfl⟩ := deleteAt_eq_some hdelete
  refine ⟨(hs.rearrange fun _ _ => shift_inv fun _ _ => itemAfter_inv).setHead ?_,
    paths_rearrange m (shift (h ++ [tag]) (itemBefore n i)) (shift (h ++ [tag]) (itemAfter n i))⟩
  rw [tree_rearrange, shift_outside (inside_self _), Option.bind_some, hlist]
  rfl

theorem Solid.deleteAll (hs : Solid m) (is : List Nat) (hrun : is.foldlM (fun m i => m.deleteAt h tag i) m = some m') :
    Solid m' ∧ m'.dirty.map Prod.fst = m.dirty.map Prod.fst := by
  have hkeep : ∀ (m₁ : Model F) i m₂, Solid m₁ ∧ m₁.dirty.map Prod.fst = m.dirty.map Prod.fst →
      m₁.deleteAt h tag i = some m₂ → Solid m₂ ∧ m₂.dirty.map Prod.fst = m.dirty.map Prod.fst := by
    rintro m₁ i m₂ ⟨hs₁, hpaths₁⟩ hdelete
    obtain ⟨hs₂, hpaths₂⟩ := hs₁.deleteAt hdelete
    exact ⟨hs₂, hpaths₂.trans hpaths₁⟩
  exact foldlM_keeps hkeep is ⟨hs, rfl⟩ hrun

theorem setAll_isSome {t : Tree F} {q : Path} : ∀ (dirty : List (Path × Data F)) (d : Document F), (∀ x ∈ dirty, x.1 ≠ []) →
    (∀ x ∈ dirty, x.1 <+: q → (x.2.content t (q.drop x.1.length)).isSome) → ((d q).isSome ∨ ∃ x ∈ dirty, x.1 <+: q) →
    (d.setAll (dirty.map fun x => (x.1.text, marshal (x.2.content t))) q).isSome
  | [], _, _, _, hd => by
    rcases hd with hd | ⟨x, hx, -⟩
    · exact hd
    · cases hx
  | x :: dirty, d, hne, hcontent, hd => by
    refine setAll_isSome dirty _ (fun y hy => hne y (.tail _ hy)) (fun y hy => hcontent y (.tail _ hy)) ?_
    dsimp only
    rw [Path.ofText_text (hne x (.head _))]
    unfold Document.set
    split
    · rename_i hpre
      refine .inl ?_
      rw [marshal, Option.isSome_map]
      exact hcontent x (.head _) hpre
    · rename_i hnot
      split
      · exact .inl rfl
      · rcases hd with hd | ⟨y, hy, hyq⟩
        · exact .inl hd
        · rcases List.mem_cons.mp hy with rfl | hy
          · exact absurd hyq hnot
          · exact .inr ⟨y, hy, hyq⟩

theorem Inv.lost (hi : Inv stored m) {k : Key} (hcov : ¬ DirtyAbove m h)
    (hcontainer : ∀ name fields, m.tree (h ++ [tag]) ≠ some (.node name fields))
    (hthere : (m.tree (h ++ [tag, k])).isSome) (hsolid : Solid m')
    (hpaths : m'.dirty.map Prod.fst = m.dirty.map Prod.fst) (hgone : m'.tree (h ++ [tag, k]) = none) :
    stored.setAll m'.dirtyData ≠ marshal m'.tree := by
  intro heq
  have hold : ∀ x ∈ m'.dirty, ∃ y ∈ m.dirty, y.1 = x.1 := by
    intro x hx
    have hmem : x.1 ∈ m.dirty.map Prod.fst := hpaths ▸ List.mem_map_of_mem hx
    exact List.mem_map.mp hmem
  have honly : ∀ x ∈ m'.dirty, x.1 <+: h ++ [tag, k] → x.1 = h ++ [tag, k] := by
    intro x hx hpre
    obtain ⟨y, hy, hyx⟩ := hold x hx
    rw [← hyx] at hpre ⊢
    have hsplit : h ++ [tag, k] = (h ++ [tag]) ++ [k] := by simp
    rw [hsplit] at hpre ⊢
    rcases List.prefix_concat_iff.mp hpre with hself | hpre
    · exact hself
    · rcases List.prefix_concat_iff.mp hpre with hself | hpre
      · obtain ⟨-, fields, hlive⟩ := hi.live y hy
        rw [hself] at hlive
        exact absurd hlive (hcontainer _ _)
      · exact absurd ⟨y, hy, hpre⟩ hcov
  have hsome : (stored.setAll m'.dirtyData (h ++ [tag, k])).isSome := by
    refine setAll_isSome m'.dirty stored (fun x hx => ?_) (fun x hx hpre => ?_) ?_
    · obtain ⟨y, hy, hyx⟩ := hold x hx
      exact hyx ▸ hi.dirty_ne_nil hy
    · rw [honly x hx hpre, List.drop_length]
      exact hsolid x hx
    · by_cases hx : ∃ x ∈ m'.dirty, x.1 <+: h ++ [tag, k]
      · exact .inr hx
      · refine .inl ?_
        rw [← hi.same, marshal, Option.isSome_map]
        · exact hthere
        · intro y hy hpre
          have hmem : y.1 ∈ m'.dirty.map Prod.fst := hpaths ▸ List.mem_map_of_mem hy
          obtain ⟨x, hx', hxy⟩ := List.mem_map.mp hmem
          exact hx ⟨x, hx', hxy ▸ hpre⟩
  rw [heq, marshal, hgone] at hsome
  cases hsome

theorem Inv.lost_rearrange (hi : Inv stored m) {k : Key} {taken : Path → Bool} (hcov : ¬ DirtyAbove m h)
    (hmap : m.tree (h ++ [tag]) = some .map) (hthere : m.tree (h ++ [tag, k]) ≠ none)
    (htaken : taken (h ++ [tag, k]) = true) :
    stored.setAll (m.rearrange (without taken) (without taken)).dirtyData ≠
      marshal (m.rearrange (without taken) (without taken)).tree := by
  refine hi.lost hcov (fun name fields hnode => ?_) (Option.isSome_iff_ne_none.mpr hthere) (hi.solid.rearrange fun _ _ => without_inv)
    (paths_rearrange m _ _) ?_
  · rw [hmap] at hnode
    cases hnode
  · rw [tree_rearrange, without, if_pos htaken, Option.bind_none]

theorem Inv.lost_deleteAll (hi : Inv stored m) (ht : m.tree.Listed) {is : List Nat} (hne : is ≠ [])
    (hcov : ¬ DirtyAbove m h) (hrun : is.foldlM (fun m i => m.deleteAt h tag i) m = some m') :
    stored.setAll m'.dirtyData ≠ marshal m'.tree := by
  obtain ⟨hsolid, hpaths⟩ := hi.solid.deleteAll is hrun
  obtain ⟨ht', hlist'⟩ := listed_deleteAll is ht hrun
  have hlist : ∃ n, m.tree (h ++ [tag]) = some (.list n) := by
    obtain ⟨i, is, rfl⟩ := List.exists_cons_of_ne_nil hne
    rw [List.foldlM_cons] at hrun
    obtain ⟨m₁, hdelete, -⟩ := Option.bind_eq_some_iff.mp hrun
    obtain ⟨-, n, -, hlist, -⟩ := listed_deleteAt ht hdelete
    exact ⟨n, hlist⟩
  obtain ⟨n, hlist⟩ := hlist
  obtain ⟨hle, hshorter⟩ := hlist' n hlist
  have hpos := List.length_pos_iff.mpr hne
  have hsplit : h ++ [tag, index (n - 1)] = (h ++ [tag]) ++ [index (n - 1)] := by simp
  have hcontainer : ∀ name fields, m.tree (h ++ [tag]) ≠ some (.node name fields) := by
    intro name fields hnode
    rw [hlist] at hnode
    cases hnode
  have hthere : (m.tree (h ++ [tag, index (n - 1)])).isSome := by
    rw [hsplit, ht _ n hlist]
    omega
  have hgone : m'.tree (h ++ [tag, index (n - 1)]) = none := by
    rw [hsplit, ← Option.not_isSome_iff_eq_none, ht' _ _ hshorter]
    omega
  exact hi.lost hcov hcontainer hthere hsolid hpaths hgone

def Model.Faithful (m : Model F) (stored : Document F) : Prop :=
  (m.dirty.Pairwise fun x y => x.1.under y.1 = false ∧ y.1.under x.1 = false) ∧ stored.setAll m.dirtyData = marshal m.tree

theorem Inv.toFaithful (hi : Inv stored m) : m.Faithful stored := by
  refine ⟨hi.apart.imp_of_mem fun {x y} hx hy hxy => ?_, hi.faithful⟩
  have hnx := hi.dirty_ne_nil hx
  have hny := hi.dirty_ne_nil hy
  constructor
  · rw [Bool.eq_false_iff]
    exact fun h => hxy.2 ((Path.under_iff hny hnx).mp h).1
  · rw [Bool.eq_false_iff]
    exact fun h => hxy.1 ((Path.under_iff hnx hny).mp h).1

theorem Inv.faithful_iff (hi : Inv stored m) (ht : m.tree.Listed) {op : Op F} (hstep : m.step op = some m') :
    m'.Faithful stored ↔ op.Covered m := by
  refine ⟨fun hfaithful => ?_, fun hcov => (hi.step hstep hcov).toFaithful⟩
  by_contra hcov
  refine absurd hfaithful.2 ?_
  cases op with
  | set h tag k v => exact absurd trivial hcov
  | append h tag vs => exact absurd trivial hcov
  | update h tag i v => exact absurd trivial hcov
  | save p fields => exact absurd trivial hcov
  | replace p v => exact absurd trivial hcov
  | delete h tag k =>
    obtain ⟨hthere, hcov⟩ := not_or.mp hcov
    obtain ⟨hmap, rfl⟩ := remove_eq_some hstep
    exact hi.lost_rearrange hcov hmap hthere (List.isPrefixOf_iff_prefix.mpr List.prefix_rfl)
  | clear h tag =>
    obtain ⟨hthere, hcov⟩ := not_or.mp hcov
    obtain ⟨k, hthere⟩ := not_forall.mp hthere
    obtain ⟨hmap, rfl⟩ := clear_eq_some hstep
    refine hi.lost_rearrange hcov hmap hthere (inside_iff.mpr ⟨⟨[k], by simp⟩, by simp⟩)
  | deleteAt h tag i =>
    have hone : [i].foldlM (fun m i => m.deleteAt h tag i) m = some m' := by
      rw [List.foldlM_cons]
      exact Option.bind_eq_some_iff.mpr ⟨m', hstep, rfl⟩
    exact hi.lost_deleteAll ht (List.cons_ne_nil i []) hcov hone
  | deleteMore h tag is =>
    obtain ⟨hne, hcov⟩ := not_or.mp hcov
    refine hi.lost_deleteAll ht (fun hnil => hne ?_) hcov hstep
    have hlength := congrArg List.length hnil
    rw [List.length_insertionSort, List.length_nil] at hlength
    exact List.length_eq_zero_iff.mp hlength

theorem listed_run (ops : List (Op F)) {m : Model F} (ht : m.tree.Listed) (hrun : m.run ops = some m') :
    m'.tree.Listed :=
  foldlM_keeps (fun _ _ _ hm => listed_step hm) ops ht hrun

end

/-! ## A sword in a bag -/

def role : Key := ⟨"role", by decide⟩
def bag : Key := ⟨"bag", by decide⟩
def sword : Key := ⟨"sword", by decide⟩

def roleTree : Tree Nat
  | [] => some .map
  | [a] => if a = role then some (.node [role] 1) else none
  | [a, b] => if a = role ∧ b = bag then some .map else none
  | [a, b, c] => if a = role ∧ b = bag ∧ c = sword then some (.node [role, bag, sword] 5) else none
  | _ => none

theorem roleTree_initialised : Initialised roleTree where
  named q name fields hnode := by
    rcases q with _ | ⟨a, _ | ⟨b, _ | ⟨c, _ | ⟨d, q⟩⟩⟩⟩ <;> simp_all [roleTree]
  closed p k hsome := by
    rcases p with _ | ⟨a, _ | ⟨b, _ | ⟨c, p⟩⟩⟩ <;> simp_all [roleTree]
  root := by simp [roleTree]
  listed p n hlist := by
    rcases p with _ | ⟨a, _ | ⟨b, _ | ⟨c, _ | ⟨d, p⟩⟩⟩⟩ <;> simp_all [roleTree]

end GameServer.Md
