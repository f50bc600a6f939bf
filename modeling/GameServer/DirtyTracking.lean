import GameServer.DirtyModel
import Mathlib.Data.List.Pairwise
import Mathlib.Data.List.Induction

/-!
# Dirty tracking: what `DirtyData` covers

Every position that no dirty path covers is as it was stored, and every dirty
path leads to the node that reported it, so the update turns the stored document
into the model. A removal reports nothing: it keeps to this only in a container
that lies under a dirty path.
-/

namespace GameServer.Md

/-! ## Paths and their texts -/

theorem ofChars?_text (k : Key) : Key.ofChars? k.text.toList = some k := by
  unfold Key.ofChars?
  rw [dif_neg k.dotFree]
  simp

theorem filterMap_ofChars? (p : Path) : (p.map (·.text.toList)).filterMap Key.ofChars? = p := by
  rw [List.filterMap_map]
  have hsome : Key.ofChars? ∘ (fun k : Key => k.text.toList) = some := funext ofChars?_text
  rw [hsome, List.filterMap_some]

theorem Path.ofText_text {p : Path} (hp : p ≠ []) : Path.ofText p.text = p := by
  unfold Path.ofText Path.text
  rw [List.splitOn_intercalate, filterMap_ofChars?]
  · intro l hl
    obtain ⟨k, -, rfl⟩ := List.mem_map.mp hl
    exact k.dotFree
  · simpa using hp

theorem Path.text_inj {p q : Path} (hp : p ≠ []) (hq : q ≠ []) : p.text = q.text ↔ p = q := by
  constructor
  · intro h
    rw [← Path.ofText_text hp, h, Path.ofText_text hq]
  · exact congrArg Path.text

theorem Path.text_append {r : Path} (hr : r ≠ []) : ∀ {p : Path}, p ≠ [] → (p ++ r).text = p.text ++ '.' :: r.text
  | [k], _ => by
    obtain ⟨k', r, rfl⟩ := List.exists_cons_of_ne_nil hr
    simp [Path.text, List.intercalate]
  | k :: k' :: p, _ => by
    have ih := Path.text_append hr (List.cons_ne_nil k' p)
    simp only [Path.text, List.intercalate] at ih ⊢
    simp only [List.cons_append, List.map_cons, List.intersperse, List.flatten_cons] at ih ⊢
    rw [ih]
    simp

theorem Path.under_iff {p q : Path} (hp : p ≠ []) (hq : q ≠ []) : q.under p = true ↔ p <+: q ∧ p ≠ q := by
  unfold Path.under
  rw [List.isPrefixOf_iff_prefix]
  constructor
  · rintro ⟨t, ht⟩
    have hsplit : q = p ++ Path.ofText t := by
      rw [← Path.ofText_text hq, ← ht, List.append_assoc, List.singleton_append]
      unfold Path.ofText List.splitOn
      rw [List.splitOnP_append_cons _ _ (by simp), List.filterMap_append]
      exact congrArg (· ++ _) (Path.ofText_text hp)
    refine ⟨⟨_, hsplit.symm⟩, ?_⟩
    rintro rfl
    have hlength := congrArg List.length ht
    simp at hlength
  · rintro ⟨⟨r, rfl⟩, hne⟩
    have hr : r ≠ [] := by
      rintro rfl
      exact hne (List.append_nil p).symm
    exact ⟨Path.text r, by rw [Path.text_append hr hp]; simp⟩

/-! ## What a run maintains -/

section
variable {F : Type} {stored : Document F} {m : Model F}

def Named (dirty : List (Path × Data F)) (q name : Path) : Prop :=
  name = q ∨ ∃ x ∈ dirty, x.1 <+: q ∧ x.1 <+: name ∧ x.1 ≠ name

structure Inv (stored : Document F) (m : Model F) : Prop where
  apart : m.dirty.Pairwise fun x y => ¬ x.1 <+: y.1 ∧ ¬ y.1 <+: x.1
  live : ∀ x ∈ m.dirty, x.2 = .here x.1 ∧ ∃ fields, m.tree x.1 = some (.node x.1 fields)
  same : ∀ q, (∀ x ∈ m.dirty, ¬ x.1 <+: q) → marshal m.tree q = stored q
  named : ∀ q name fields, m.tree q = some (.node name fields) → Named m.dirty q name
  closed : ∀ p k, (m.tree (p ++ [k])).isSome → (m.tree p).isSome
  root : ∀ name fields, m.tree [] ≠ some (.node name fields)

variable {q p h : Path} {x : Path × Data F} {tag : Key} {m' : Model F}

theorem Inv.ne_nil (hi : Inv stored m) {name : Path} {fields : F} (h : m.tree q = some (.node name fields)) :
    q ≠ [] := by
  rintro rfl
  exact hi.root _ _ h

theorem Inv.dirty_ne_nil (hi : Inv stored m) (hx : x ∈ m.dirty) : x.1 ≠ [] := by
  obtain ⟨-, fields, h⟩ := hi.live x hx
  exact hi.ne_nil h

theorem Inv.name_ne_nil (hi : Inv stored m) {name : Path} {fields : F} (h : m.tree q = some (.node name fields)) :
    name ≠ [] := by
  rcases hi.named q name fields h with rfl | ⟨x, hx, -, hname, -⟩
  · exact hi.ne_nil h
  · rintro rfl
    exact hi.dirty_ne_nil hx (List.prefix_nil.mp hname)

theorem Inv.unique (hi : Inv stored m) {y : Path × Data F} (hx : x ∈ m.dirty) (hy : y ∈ m.dirty) (hxq : x.1 <+: q)
    (hyq : y.1 <+: q) : x = y := by
  by_contra hne
  have hsymm : Std.Symm fun x y : Path × Data F => ¬ x.1 <+: y.1 ∧ ¬ y.1 <+: x.1 := ⟨fun _ _ h => h.symm⟩
  have hxy := hi.apart.forall hx hy hne
  rcases List.prefix_or_prefix_of_prefix hxq hyq with h | h
  · exact hxy.1 h
  · exact hxy.2 h

theorem isSome_of_prefix {t : Tree F} (hclosed : ∀ p k, (t (p ++ [k])).isSome → (t p).isSome) (h : p <+: q)
    (hq : (t q).isSome) : (t p).isSome := by
  obtain ⟨r, rfl⟩ := h
  induction r using List.reverseRecOn with
  | nil => rwa [List.append_nil] at hq
  | append_singleton r k ih =>
    rw [← List.append_assoc] at hq
    exact ih (hclosed _ _ hq)

/-! ## The update -/

theorem setAll_eq {t : Tree F} (hclosed : ∀ p k, (t (p ++ [k])).isSome → (t p).isSome) :
    ∀ (dirty : List (Path × Data F)) (d : Document F), (∀ x ∈ dirty, x.1 ≠ [] ∧ x.2 = .here x.1 ∧ (t x.1).isSome) →
      (∀ q, (∃ x ∈ dirty, x.1 <+: q) ∨ d q = marshal t q) →
      d.setAll (dirty.map fun x => (x.1.text, marshal (x.2.content t))) = marshal t
  | [], d, _, hd => by
    funext q
    rcases hd q with ⟨x, hx, -⟩ | hq
    · cases hx
    · exact hq
  | x :: dirty, d, hlive, hd => by
    obtain ⟨hne, hhere, hsome⟩ := hlive x (.head _)
    refine setAll_eq hclosed dirty _ (fun y hy => hlive y (.tail _ hy)) fun q => ?_
    dsimp only
    rw [Path.ofText_text hne]
    unfold Document.set
    split
    · rename_i hpre
      obtain ⟨r, rfl⟩ := hpre
      rw [List.drop_left, hhere]
      exact .inr rfl
    · rename_i hnot
      rcases hd q with ⟨y, hy, hyq⟩ | hq
      · rcases List.mem_cons.mp hy with rfl | hy
        · exact absurd hyq hnot
        · exact .inl ⟨y, hy, hyq⟩
      · right
        split
        · rename_i hmade
          -- the stored document has what leads to a node of the model
          have hthere := isSome_of_prefix hclosed hmade.1 hsome
          rw [hq, marshal, Option.isNone_map, Option.isNone_iff_eq_none] at hmade
          rw [hmade.2] at hthere
          cases hthere
        · exact hq

theorem Inv.faithful (hi : Inv stored m) : stored.setAll m.dirtyData = marshal m.tree := by
  refine setAll_eq hi.closed m.dirty stored (fun x hx => ?_) fun q => ?_
  · obtain ⟨hhere, fields, htree⟩ := hi.live x hx
    exact ⟨hi.dirty_ne_nil hx, hhere, by rw [htree]; rfl⟩
  · by_cases h : ∃ x ∈ m.dirty, x.1 <+: q
    · exact .inl h
    · exact .inr (hi.same q fun x hx hxq => h ⟨x, hx, hxq⟩).symm

/-! ## A node that reports itself -/

theorem not_isPrefixOf : (!p.isPrefixOf q) = true ↔ ¬ p <+: q := by
  rw [Bool.not_eq_true', ← Bool.not_eq_true, List.isPrefixOf_iff_prefix]

theorem addDirty_cases {path : Path} {data : Data F} {dirty : List (Path × Data F)} (hpath : path ≠ [])
    (hne : ∀ x ∈ dirty, x.1 ≠ []) :
    ((∃ x ∈ dirty, x.1 <+: path ∧ x.1 ≠ path) ∧ addDirty path data dirty = dirty) ∨
      ((∀ x ∈ dirty, ¬ (x.1 <+: path ∧ x.1 ≠ path)) ∧
        addDirty path data dirty = (path, data) :: dirty.filter fun x => !path.isPrefixOf x.1) := by
  unfold addDirty
  by_cases h : ∃ x ∈ dirty, x.1 <+: path ∧ x.1 ≠ path
  · refine .inl ⟨h, if_pos ?_⟩
    obtain ⟨x, hx, hunder⟩ := h
    exact List.any_eq_true.mpr ⟨x, hx, (Path.under_iff (hne x hx) hpath).mpr hunder⟩
  · have hnone : ∀ x ∈ dirty, ¬ (x.1 <+: path ∧ x.1 ≠ path) := fun x hx hunder => h ⟨x, hx, hunder⟩
    refine .inr ⟨hnone, ?_⟩
    rw [if_neg]
    · refine congrArg _ (List.filter_congr fun x hx => congrArg _ ?_)
      rw [Bool.eq_iff_iff, Bool.or_eq_true, beq_iff_eq, Path.text_inj (hne x hx) hpath, Path.under_iff hpath (hne x hx),
        List.isPrefixOf_iff_prefix]
      constructor
      · rintro (rfl | h)
        · exact List.prefix_rfl
        · exact h.1
      · intro hpre
        by_cases heq : x.1 = path
        · exact .inl heq
        · exact .inr ⟨hpre, Ne.symm heq⟩
    · intro hany
      obtain ⟨x, hx, hunder⟩ := List.any_eq_true.mp hany
      exact hnone x hx ((Path.under_iff (hne x hx) hpath).mp hunder)

structure Writes (m : Model F) (pos path : Path) (c : Tree F) (replaced : Path → Bool) : Prop where
  pos_ne : pos ≠ []
  path_ne : path ≠ []
  named : path = pos ∨ ∃ x ∈ m.dirty, x.1 <+: pos ∧ x.1 <+: path ∧ x.1 ≠ pos ∧ x.1 ≠ path
  replaced : ∀ q, replaced q = true → pos <+: q
  root : ∃ fields, c [] = some (.node path fields)
  nodes : ∀ r name fields, c r = some (.node name fields) → name = path ++ r ∨ Named m.dirty (pos ++ r) name
  closed : ∀ p k, (c (p ++ [k])).isSome → (c p).isSome
  parent : ∀ p k, pos = p ++ [k] → (m.tree p).isSome

variable {pos path : Path} {c : Tree F} {replaced : Path → Bool}

theorem Writes.moved (h : Writes m pos path c replaced) (hi : Inv stored m) (hx : x ∈ m.dirty) (hnot : ¬ pos <+: x.1) :
    (x.1, x.2.move m.tree fun q => if replaced q then none else some q) = x := by
  have hkeep : ¬ replaced x.1 = true := fun hr => hnot (h.replaced _ hr)
  obtain ⟨hhere, -⟩ := hi.live x hx
  refine Prod.ext rfl ?_
  rw [hhere, Data.move, if_neg hkeep]

theorem Inv.not_under (hi : Inv stored m) {y : Path × Data F} (hx : x ∈ m.dirty) (hy : y ∈ m.dirty)
    (hpos : x.1 <+: pos) (hne : x.1 ≠ pos) : ¬ pos <+: y.1 := by
  intro hunder
  have heq := hi.unique hx hy (hpos.trans hunder) List.prefix_rfl
  rw [← heq] at hunder
  exact hne (hpos.eq_of_length (Nat.le_antisymm hpos.length_le hunder.length_le))

theorem Writes.dirty (h : Writes m pos path c replaced) (hi : Inv stored m) :
    ((∃ x ∈ m.dirty, x.1 <+: pos ∧ x.1 <+: path ∧ x.1 ≠ pos ∧ x.1 ≠ path) ∧ (m.write pos path c replaced).dirty = m.dirty) ∨
      (path = pos ∧ (∀ x ∈ m.dirty, x.1 <+: pos → pos <+: x.1) ∧
        (m.write pos path c replaced).dirty = (pos, .here pos) :: m.dirty.filter fun x => !pos.isPrefixOf x.1) := by
  have hne : ∀ x ∈ m.dirty.map fun x => (x.1, x.2.move m.tree fun q => if replaced q then none else some q), x.1 ≠ [] := by
    intro x hx
    obtain ⟨y, hy, rfl⟩ := List.mem_map.mp hx
    exact (hi.dirty_ne_nil hy : y.1 ≠ [])
  have hsame : ∀ x ∈ m.dirty, x.1 <+: pos → x.1 ≠ pos →
      (m.dirty.map fun x => (x.1, x.2.move m.tree fun q => if replaced q then none else some q)) = m.dirty := by
    intro x hx hpos hxne
    refine (List.map_congr_left fun y hy => h.moved hi hy (hi.not_under hx hy hpos hxne)).trans (List.map_id' _)
  unfold Model.write
  dsimp only
  rcases addDirty_cases (F := F) h.path_ne hne with ⟨⟨y, hy, hunder⟩, heq⟩ | ⟨hnone, heq⟩
  · left
    rw [heq]
    rcases h.named with rfl | ⟨x, hx, hx'⟩
    · obtain ⟨x, hx, rfl⟩ := List.mem_map.mp hy
      exact ⟨⟨x, hx, hunder.1, hunder.1, hunder.2, hunder.2⟩, hsame x hx hunder.1 hunder.2⟩
    · exact ⟨⟨x, hx, hx'⟩, hsame x hx hx'.1 hx'.2.2.1⟩
  · rcases h.named with rfl | ⟨x, hx, -, hpath, -, hne'⟩
    · right
      refine ⟨rfl, fun x hx hpos => ?_, ?_⟩
      · by_contra hnot
        refine hnone _ (List.mem_map_of_mem hx) ⟨hpos, ?_⟩
        rintro heq'
        exact hnot (heq' ▸ List.prefix_rfl)
      · rw [heq, List.filter_map]
        refine congrArg _ ((List.map_congr_left fun x hx => ?_).trans (List.map_id' _))
        obtain ⟨hx, hkept⟩ := List.mem_filter.mp hx
        exact h.moved hi hx (not_isPrefixOf.mp hkept)
    · exact absurd ⟨hpath, hne'⟩ (hnone _ (List.mem_map_of_mem hx))

theorem Tree.graft_append (t : Tree F) (p r : Path) (c : Tree F) : t.graft p c (p ++ r) = c r := by
  rw [Tree.graft, if_pos (List.prefix_append p r), List.drop_left]

theorem Tree.graft_of_not {t : Tree F} {c : Tree F} (h : ¬ p <+: q) : t.graft p c q = t q := if_neg h

theorem tree_write (m : Model F) (pos path : Path) (c : Tree F) (replaced : Path → Bool) :
    (m.write pos path c replaced).tree = m.tree.graft pos c := rfl

theorem Writes.covers (h : Writes m pos path c replaced) (hi : Inv stored m) (hx : x ∈ m.dirty) :
    ∃ y ∈ (m.write pos path c replaced).dirty, y.1 <+: x.1 := by
  rcases h.dirty hi with ⟨-, heq⟩ | ⟨-, -, heq⟩
  · exact ⟨x, heq ▸ hx, List.prefix_rfl⟩
  · rw [heq]
    by_cases hunder : pos <+: x.1
    · exact ⟨_, .head _, hunder⟩
    · exact ⟨x, .tail _ (List.mem_filter.mpr ⟨hx, not_isPrefixOf.mpr hunder⟩), List.prefix_rfl⟩

theorem Writes.covers_pos (h : Writes m pos path c replaced) (hi : Inv stored m) :
    ∃ y ∈ (m.write pos path c replaced).dirty, y.1 <+: pos := by
  rcases h.dirty hi with ⟨⟨x, hx, hpos, -⟩, heq⟩ | ⟨-, -, heq⟩
  · exact ⟨x, heq ▸ hx, hpos⟩
  · rw [heq]
    exact ⟨_, .head _, List.prefix_rfl⟩

theorem Named.write (h : Writes m pos path c replaced) (hi : Inv stored m) {name : Path} (hn : Named m.dirty q name) :
    Named (m.write pos path c replaced).dirty q name := by
  rcases hn with rfl | ⟨x, hx, hq, hname, hne⟩
  · exact .inl rfl
  · obtain ⟨y, hy, hyx⟩ := h.covers hi hx
    refine .inr ⟨y, hy, hyx.trans hq, hyx.trans hname, ?_⟩
    rintro heq
    rw [heq] at hyx
    exact hne (hname.eq_of_length (Nat.le_antisymm hname.length_le hyx.length_le))

theorem Writes.kept (h : Writes m pos path c replaced) (hi : Inv stored m)
    (hx : x ∈ (m.write pos path c replaced).dirty) :
    x = (pos, .here pos) ∧ path = pos ∨ x ∈ m.dirty ∧ ¬ pos <+: x.1 := by
  rcases h.dirty hi with ⟨⟨y, hy, hpos, -, hne, -⟩, heq⟩ | ⟨hpath, -, heq⟩
  · rw [heq] at hx
    exact .inr ⟨hx, hi.not_under hy hx hpos hne⟩
  · rw [heq] at hx
    rcases List.mem_cons.mp hx with rfl | hx
    · exact .inl ⟨rfl, hpath⟩
    · obtain ⟨hx, hkept⟩ := List.mem_filter.mp hx
      exact .inr ⟨hx, not_isPrefixOf.mp hkept⟩

theorem Inv.write (hi : Inv stored m) (h : Writes m pos path c replaced) : Inv stored (m.write pos path c replaced) where
  apart := by
    rcases h.dirty hi with ⟨-, heq⟩ | ⟨-, habove, heq⟩
    · rw [heq]
      exact hi.apart
    · rw [heq]
      refine List.pairwise_cons.mpr ⟨fun x hx => ?_, hi.apart.filter _⟩
      obtain ⟨hx, hkept⟩ := List.mem_filter.mp hx
      have hnot := not_isPrefixOf.mp hkept
      exact ⟨hnot, fun hx' => hnot (habove x hx hx')⟩
  live x hx := by
    rcases h.kept hi hx with ⟨rfl, rfl⟩ | ⟨hx, hnot⟩
    · obtain ⟨fields, hroot⟩ := h.root
      refine ⟨rfl, fields, ?_⟩
      have hgraft := Tree.graft_append m.tree path [] c
      rw [List.append_nil] at hgraft
      exact hgraft.trans hroot
    · obtain ⟨hhere, fields, htree⟩ := hi.live x hx
      exact ⟨hhere, fields, (Tree.graft_of_not hnot).trans htree⟩
  same q hq := by
    have hnot : ¬ pos <+: q := by
      intro hpre
      obtain ⟨y, hy, hpos⟩ := h.covers_pos hi
      exact hq y hy (hpos.trans hpre)
    have hold : ∀ x ∈ m.dirty, ¬ x.1 <+: q := by
      intro x hx hpre
      obtain ⟨y, hy, hyx⟩ := h.covers hi hx
      exact hq y hy (hyx.trans hpre)
    rw [← hi.same q hold]
    exact congrArg (Option.map Head.part) (Tree.graft_of_not hnot)
  named q name fields hnode := by
    by_cases hpre : pos <+: q
    · obtain ⟨r, rfl⟩ := hpre
      rw [tree_write, Tree.graft_append] at hnode
      rcases h.nodes r name fields hnode with rfl | hold
      · rcases h.dirty hi with ⟨⟨x, hx, hpos, hpath, -, hne⟩, heq⟩ | ⟨hpath, -, -⟩
        · refine .inr ⟨x, heq ▸ hx, hpos.trans (List.prefix_append _ _), hpath.trans (List.prefix_append _ _), ?_⟩
          rintro heq'
          exact hne (hpath.eq_of_length (Nat.le_antisymm hpath.length_le (by rw [heq', List.length_append]; omega)))
        · exact .inl (by rw [hpath])
      · exact hold.write h hi
    · rw [tree_write, Tree.graft_of_not hpre] at hnode
      exact (hi.named q name fields hnode).write h hi
  closed p k hsome := by
    by_cases hpre : pos <+: p
    · obtain ⟨r, rfl⟩ := hpre
      simp only [tree_write, List.append_assoc, Tree.graft_append] at hsome ⊢
      exact h.closed r k hsome
    · rw [tree_write, Tree.graft_of_not hpre]
      by_cases hnew : pos <+: p ++ [k]
      · rcases List.prefix_concat_iff.mp hnew with heq | hold
        · exact h.parent p k heq
        · exact absurd hold hpre
      · rw [tree_write, Tree.graft_of_not hnew] at hsome
        exact hi.closed p k hsome
  root name fields hnode := by
    have hnot : ¬ pos <+: [] := fun hp => h.pos_ne (List.prefix_nil.mp hp)
    rw [tree_write, Tree.graft_of_not hnot] at hnode
    exact hi.root name fields hnode

/-! ## What an operation does -/

section
variable {m' : Model F} {h p : Path} {tag k : Key} {i : Nat} {v : Content F}

theorem put_eq_some (hput : m.put h tag k v = some m') : ∃ name fields, m.tree h = some (.node name fields) ∧
    m' = m.write (h ++ [tag, k]) (name ++ [tag, k]) (v.init (name ++ [tag, k])) (h ++ [tag, k]).isPrefixOf := by
  unfold Model.put at hput
  split at hput <;> cases hput
  exact ⟨_, _, ‹_›, rfl⟩

theorem set_eq_some (hset : m.set h tag k v = some m') : m.tree (h ++ [tag]) = some .map ∧ m.put h tag k v = some m' := by
  unfold Model.set at hset
  split at hset
  · exact ⟨‹_›, hset⟩
  · cases hset

theorem remove_eq_some (hremove : m.remove h tag k = some m') : m.tree (h ++ [tag]) = some .map ∧
    m' = m.rearrange (without (h ++ [tag, k]).isPrefixOf) (without (h ++ [tag, k]).isPrefixOf) := by
  unfold Model.remove at hremove
  split at hremove <;> cases hremove
  exact ⟨‹_›, rfl⟩

theorem clear_eq_some (hclear : m.clear h tag = some m') : m.tree (h ++ [tag]) = some .map ∧
    m' = m.rearrange (without (inside (h ++ [tag]))) (without (inside (h ++ [tag]))) := by
  unfold Model.clear at hclear
  split at hclear <;> cases hclear
  exact ⟨‹_›, rfl⟩

theorem appendOne_eq_some (happend : m.appendOne h tag v = some m') : ∃ n m₁, m.tree (h ++ [tag]) = some (.list n) ∧
    m.put h tag (index n) v = some m₁ ∧ m' = { m₁ with tree := m₁.tree.setHead (h ++ [tag]) (.list (n + 1)) } := by
  unfold Model.appendOne at happend
  split at happend
  · obtain ⟨m₁, hput, rfl⟩ := Option.map_eq_some_iff.mp happend
    exact ⟨_, m₁, ‹_›, hput, rfl⟩
  · cases happend

theorem update_eq_some (hupdate : m.update h tag i v = some m') :
    ∃ n, m.tree (h ++ [tag]) = some (.list n) ∧ i < n ∧ m.put h tag (index i) v = some m' := by
  unfold Model.update at hupdate
  split at hupdate
  · split at hupdate
    · exact ⟨_, ‹_›, ‹_›, hupdate⟩
    · cases hupdate
  · cases hupdate

theorem deleteAt_eq_some (hdelete : m.deleteAt h tag i = some m') : ∃ n, m.tree (h ++ [tag]) = some (.list n) ∧ i < n ∧
    m' = ⟨(m.rearrange (shift (h ++ [tag]) (itemBefore n i)) (shift (h ++ [tag]) (itemAfter n i))).tree.setHead (h ++ [tag])
        (.list (n - 1)), (m.rearrange (shift (h ++ [tag]) (itemBefore n i)) (shift (h ++ [tag]) (itemAfter n i))).dirty⟩ := by
  unfold Model.deleteAt at hdelete
  split at hdelete
  · split at hdelete
    · cases hdelete
      exact ⟨_, ‹_›, ‹_›, rfl⟩
    · cases hdelete
  · cases hdelete

theorem save_eq_some {fields : F} (hsave : m.save p fields = some m') : ∃ name old, m.tree p = some (.node name old) ∧
    m' = m.write p name ((m.tree.setHead p (.node name fields)).at p) fun _ => false := by
  unfold Model.save at hsave
  split at hsave
  · split at hsave <;> cases hsave
    exact ⟨_, _, ‹_›, rfl⟩
  · cases hsave

theorem replace_eq_some (hreplace : m.replace p v = some m') : ∃ name old, m.tree p = some (.node name old) ∧
    m' = m.write p name (v.init name) (inside p) := by
  unfold Model.replace at hreplace
  split at hreplace
  · split at hreplace <;> cases hreplace
    exact ⟨_, _, ‹_›, rfl⟩
  · cases hreplace

end

/-! ## Operations that report -/

theorem Content.isSome_init (v : Content F) (path r : Path) : (v.init path r).isSome = (v.tree r).isSome := by
  rw [Content.init, Option.isSome_map]

theorem Content.init_root (v : Content F) (path : Path) : ∃ fields, v.init path [] = some (.node path fields) := by
  obtain ⟨name, fields, h⟩ := v.root
  refine ⟨fields, ?_⟩
  rw [Content.init, h, Option.map_some, Head.named, List.append_nil]

theorem Content.name_init {v : Content F} {path r name : Path} {fields : F} (h : v.init path r = some (.node name fields)) :
    name = path ++ r := by
  obtain ⟨head, -, hhead⟩ := Option.map_eq_some_iff.mp h
  cases head <;> cases hhead
  rfl

theorem Inv.put (hi : Inv stored m) {k : Key} {v : Content F} (hcontainer : (m.tree (h ++ [tag])).isSome)
    (hput : m.put h tag k v = some m') :
    Inv stored m' ∧ m'.tree (h ++ [tag]) = m.tree (h ++ [tag]) := by
  obtain ⟨name, fields, hnode, rfl⟩ := put_eq_some hput
  have hlonger : ∀ {x p : Path}, x <+: p → x ≠ p ++ [tag, k] := by
    rintro x p hpre rfl
    have hlength := hpre.length_le
    simp at hlength
  refine ⟨hi.write ⟨by simp, by simp, ?_, fun q hq => List.isPrefixOf_iff_prefix.mp hq, v.init_root _,
    fun r name fields hr => .inl (Content.name_init hr), fun p k => ?_, fun p k' heq => ?_⟩, ?_⟩
  · rcases hi.named h name fields hnode with rfl | ⟨x, hx, hpos, hname, -⟩
    · exact .inl rfl
    · exact .inr ⟨x, hx, hpos.trans (List.prefix_append _ _), hname.trans (List.prefix_append _ _), hlonger hpos, hlonger hname⟩
  · rw [Content.isSome_init, Content.isSome_init]
    exact v.closed p k
  · have heq' : (h ++ [tag]) ++ [k] = p ++ [k'] := by rw [← heq, List.append_assoc]; rfl
    rw [← (List.append_inj' heq' rfl).1]
    exact hcontainer
  · rw [tree_write, Tree.graft_of_not]
    intro hpre
    have hlength := hpre.length_le
    simp at hlength

theorem Tree.isSome_setHead {t : Tree F} {head : Head F} (h : (t p).isSome) :
    (t.setHead p head q).isSome = (t q).isSome := by
  unfold Tree.setHead
  split
  · rename_i heq
    rw [heq, h]
    rfl
  · rfl

theorem Inv.setLen (hi : Inv stored m) {n n' : Nat} (hlist : m.tree p = some (.list n)) :
    Inv stored { m with tree := m.tree.setHead p (.list n') } where
  apart := hi.apart
  live x hx := by
    obtain ⟨hhere, fields, htree⟩ := hi.live x hx
    refine ⟨hhere, fields, (if_neg ?_).trans htree⟩
    rintro rfl
    rw [hlist] at htree
    cases htree
  same q hq := by
    rw [← hi.same q hq]
    unfold marshal Tree.setHead
    dsimp only
    split
    · rename_i heq
      rw [heq, hlist]
      rfl
    · rfl
  named q name fields hnode := by
    unfold Tree.setHead at hnode
    dsimp only at hnode
    split at hnode
    · cases hnode
    · exact hi.named q name fields hnode
  closed q k := by
    have hsome : (m.tree p).isSome := by rw [hlist]; rfl
    rw [Tree.isSome_setHead hsome, Tree.isSome_setHead hsome]
    exact hi.closed q k
  root name fields hnode := by
    unfold Tree.setHead at hnode
    dsimp only at hnode
    split at hnode
    · cases hnode
    · exact hi.root name fields hnode

theorem Inv.named_strict (hi : Inv stored m) {name : Path} {fields : F} (hnode : m.tree p = some (.node name fields)) :
    name = p ∨ ∃ x ∈ m.dirty, x.1 <+: p ∧ x.1 <+: name ∧ x.1 ≠ p ∧ x.1 ≠ name := by
  rcases hi.named p name fields hnode with rfl | ⟨x, hx, hpos, hname, hne⟩
  · exact .inl rfl
  · refine .inr ⟨x, hx, hpos, hname, ?_, hne⟩
    rintro heq
    obtain ⟨-, fields', hlive⟩ := hi.live x hx
    rw [heq, hnode] at hlive
    cases hlive
    exact hne heq

theorem Inv.save (hi : Inv stored m) {fields : F} (hsave : m.save p fields = some m') :
    Inv stored m' := by
  obtain ⟨name, old, hnode, rfl⟩ := save_eq_some hsave
  have hsome : (m.tree p).isSome := by rw [hnode]; rfl
  refine hi.write ⟨hi.ne_nil hnode, hi.name_ne_nil hnode, hi.named_strict hnode, fun q hq => (by cases hq), ⟨fields, ?_⟩,
    fun r name' fields' hr => ?_, fun q k => ?_, fun q k heq => ?_⟩
  · rw [Tree.at, List.append_nil, Tree.setHead, if_pos rfl]
  · unfold Tree.at Tree.setHead at hr
    split at hr
    · rename_i heq
      cases hr
      exact .inl (by rw [List.append_right_eq_self.mp heq, List.append_nil])
    · exact .inr (hi.named _ _ _ hr)
  · unfold Tree.at
    rw [Tree.isSome_setHead hsome, Tree.isSome_setHead hsome, ← List.append_assoc]
    exact hi.closed _ k
  · rw [heq] at hsome
    exact hi.closed q k hsome

theorem Inv.replace (hi : Inv stored m) {v : Content F} (hreplace : m.replace p v = some m') :
    Inv stored m' := by
  obtain ⟨name, old, hnode, rfl⟩ := replace_eq_some hreplace
  have hsome : (m.tree p).isSome := by rw [hnode]; rfl
  refine hi.write ⟨hi.ne_nil hnode, hi.name_ne_nil hnode, hi.named_strict hnode, fun q hq => ?_, v.init_root _,
    fun r name' fields' hr => .inl (Content.name_init hr), fun q k => ?_, fun q k heq => ?_⟩
  · exact List.isPrefixOf_iff_prefix.mp (Bool.and_eq_true _ _ ▸ hq).1
  · rw [Content.isSome_init, Content.isSome_init]
    exact v.closed q k
  · rw [heq] at hsome
    exact hi.closed q k hsome

/-! ## Removals under a dirty path -/

theorem inside_iff : inside p q = true ↔ p <+: q ∧ q ≠ p := by
  rw [inside, Bool.and_eq_true, List.isPrefixOf_iff_prefix, bne_iff_ne]

theorem inside_append (p : Path) (k : Key) (r : Path) : inside p (p ++ k :: r) = true :=
  inside_iff.mpr ⟨List.prefix_append _ _, by simp⟩

theorem inside_self (p : Path) : inside p p = false := by simp [inside]

theorem exists_of_inside (h : inside p q = true) : ∃ k r, q = p ++ k :: r := by
  obtain ⟨⟨r, rfl⟩, hne⟩ := inside_iff.mp h
  cases r with
  | nil => exact absurd (List.append_nil p) hne
  | cons k r => exact ⟨k, r, rfl⟩

theorem inside_concat (h : inside p q = true) (k : Key) : inside p (q ++ [k]) = true := by
  obtain ⟨k', r, rfl⟩ := exists_of_inside h
  rw [List.append_assoc]
  exact inside_append p k' (r ++ [k])

structure Rearranges (p : Path) (old new : Path → Option Path) : Prop where
  old_outside : ∀ q, inside p q = false → old q = some q
  old_inside : ∀ q q', inside p q = true → old q = some q' → inside p q' = true
  new_outside : ∀ q, inside p q = false → new q = some q
  closed : ∀ q k q', old (q ++ [k]) = some q' → ∃ a k', q' = a ++ [k'] ∧ old q = some a

theorem Rearranges.without {taken : Path → Bool} (hinside : ∀ q, taken q = true → inside p q = true)
    (hmono : ∀ q k, taken q = true → taken (q ++ [k]) = true) : Rearranges p (without taken) (without taken) := by
  have houtside : ∀ q, inside p q = false → Md.without taken q = some q := by
    intro q hq
    refine if_neg fun h => ?_
    rw [hinside q h] at hq
    cases hq
  refine ⟨houtside, fun q q' hq hold => ?_, houtside, fun q k q' hold => ?_⟩
  · unfold Md.without at hold
    split at hold <;> cases hold
    exact hq
  · unfold Md.without at hold
    split at hold
    · cases hold
    · rename_i hnot
      cases hold
      exact ⟨q, k, rfl, if_neg fun h => hnot (hmono q k h)⟩

theorem shift_outside {element : Key → Option Key} (h : inside p q = false) : shift p element q = some q := by
  rw [shift, h, if_neg Bool.false_ne_true]

theorem shift_append (p : Path) (element : Key → Option Key) (k : Key) (r : Path) :
    shift p element (p ++ k :: r) = (element k).map fun k' => p ++ k' :: r := by
  simp only [shift, inside_append, if_true, List.drop_left]

theorem shift_cases {element : Key → Option Key} {k : Key} {r q' : Path}
    (h : shift p element (p ++ k :: r) = some q') : ∃ k', element k = some k' ∧ q' = p ++ k' :: r := by
  rw [shift_append] at h
  obtain ⟨k', hk', rfl⟩ := Option.map_eq_some_iff.mp h
  exact ⟨k', hk', rfl⟩

theorem Rearranges.shift (p : Path) (before after : Key → Option Key) : Rearranges p (Md.shift p before) (Md.shift p after) where
  old_outside _ := shift_outside
  old_inside q q' hq hold := by
    obtain ⟨k, r, rfl⟩ := exists_of_inside hq
    obtain ⟨k', -, rfl⟩ := shift_cases hold
    exact inside_append p k' r
  new_outside _ := shift_outside
  closed q k q' hold := by
    by_cases hinside : inside p (q ++ [k]) = true
    · obtain ⟨k₀, r, heq⟩ := exists_of_inside hinside
      rw [heq] at hold
      obtain ⟨k', hk', rfl⟩ := shift_cases hold
      cases r using List.reverseRecOn with
      | nil =>
        obtain ⟨rfl, -⟩ := List.append_inj' heq rfl
        exact ⟨q, k', rfl, shift_outside (inside_self q)⟩
      | append_singleton r k₁ =>
        have heq' : q ++ [k] = (p ++ k₀ :: r) ++ [k₁] := by rw [heq, List.append_assoc, List.cons_append]
        obtain ⟨rfl, -⟩ := List.append_inj' heq' rfl
        exact ⟨p ++ k' :: r, k₁, by simp, by rw [shift_append, hk', Option.map_some]⟩
    · rw [Bool.not_eq_true] at hinside
      have hq : inside p q = false := by
        by_contra h
        rw [Bool.not_eq_false] at h
        rw [inside_concat h k] at hinside
        cases hinside
      rw [shift_outside hinside] at hold
      cases hold
      exact ⟨q, k, rfl, shift_outside hq⟩

theorem tree_rearrange (m : Model F) (old new : Path → Option Path) (q : Path) :
    (m.rearrange old new).tree q = (old q).bind m.tree := rfl

def DirtyAbove (m : Model F) (h : Path) : Prop := ∃ x ∈ m.dirty, x.1 <+: h

theorem Inv.rearrange (hi : Inv stored m) {old new : Path → Option Path} (hr : Rearranges (h ++ [tag]) old new)
    (hcov : DirtyAbove m h) :
    Inv stored (m.rearrange old new) ∧ (m.rearrange old new).dirty = m.dirty := by
  obtain ⟨x, hx, hxh⟩ := hcov
  have hxp : x.1 <+: h ++ [tag] := hxh.trans (List.prefix_append _ _)
  have hxne : x.1 ≠ h ++ [tag] := by
    intro heq
    have hlength := hxh.length_le
    rw [heq] at hlength
    simp at hlength
  -- the container is covered, so no dirty path is inside it
  have houtside : ∀ y ∈ m.dirty, inside (h ++ [tag]) y.1 = false := by
    intro y hy
    rw [Bool.eq_false_iff]
    exact fun hin => hi.not_under hx hy hxp hxne (inside_iff.mp hin).1
  have hcovers : ∀ q, inside (h ++ [tag]) q = true → x.1 <+: q := fun q hq => hxp.trans (inside_iff.mp hq).1
  have hdirty : (m.rearrange old new).dirty = m.dirty := by
    refine (List.map_congr_left fun y hy => ?_).trans (List.map_id' _)
    obtain ⟨hhere, -⟩ := hi.live y hy
    refine Prod.ext rfl ?_
    rw [hhere, Data.move, hr.new_outside y.1 (houtside y hy)]
  have htree : ∀ q, inside (h ++ [tag]) q = false → (m.rearrange old new).tree q = m.tree q := by
    intro q hq
    rw [tree_rearrange, hr.old_outside q hq, Option.bind_some]
  refine ⟨⟨hdirty ▸ hi.apart, fun y hy => ?_, fun q hq => ?_, fun q name fields hnode => ?_, fun q k hsome => ?_,
    fun name fields hnode => ?_⟩, hdirty⟩
  · rw [hdirty] at hy
    obtain ⟨hhere, fields, hlive⟩ := hi.live y hy
    exact ⟨hhere, fields, (htree _ (houtside y hy)).trans hlive⟩
  · rw [hdirty] at hq
    have hq' : inside (h ++ [tag]) q = false := by
      rw [Bool.eq_false_iff]
      exact fun hin => hq x hx (hcovers q hin)
    rw [← hi.same q hq]
    exact congrArg (Option.map Head.part) (htree q hq')
  · rw [hdirty]
    by_cases hin : inside (h ++ [tag]) q = true
    · obtain ⟨q', hold, hnode'⟩ := Option.bind_eq_some_iff.mp hnode
      have hin' := hr.old_inside q q' hin hold
      rcases hi.named q' name fields hnode' with rfl | ⟨y, hy, hyq, hyn, hne⟩
      · refine .inr ⟨x, hx, hcovers q hin, hcovers _ hin', ?_⟩
        rintro heq
        have hlength := (inside_iff.mp hin').1.length_le
        have hlength' := hxh.length_le
        rw [heq] at hlength'
        simp at hlength
        omega
      · cases hi.unique hx hy (hcovers q' hin') hyq
        exact .inr ⟨x, hx, hcovers q hin, hyn, hne⟩
    · rw [Bool.not_eq_true] at hin
      rw [htree q hin] at hnode
      exact hi.named q name fields hnode
  · obtain ⟨head, hhead⟩ := Option.isSome_iff_exists.mp hsome
    obtain ⟨q', hold, hthere⟩ := Option.bind_eq_some_iff.mp hhead
    obtain ⟨a, k', rfl, hold'⟩ := hr.closed q k q' hold
    have ha := hi.closed a k' (by rw [hthere]; rfl)
    rw [tree_rearrange, hold', Option.bind_some]
    exact ha
  · have hroot : inside (h ++ [tag]) [] = false := by
      rw [Bool.eq_false_iff]
      intro hin
      have := (inside_iff.mp hin).1.length_le
      simp at this
    rw [htree [] hroot] at hnode
    exact hi.root name fields hnode

theorem Inv.rearrange_none (hi : Inv stored m) {taken : Path → Bool} (hnone : ∀ q, taken q = true → m.tree q = none) :
    m.rearrange (without taken) (without taken) = m := by
  have htree : (m.rearrange (without taken) (without taken)).tree = m.tree := by
    funext q
    rw [tree_rearrange, without]
    split
    · rename_i htaken
      rw [hnone q htaken, Option.bind_none]
    · rw [Option.bind_some]
  have hdirty : (m.rearrange (without taken) (without taken)).dirty = m.dirty := by
    refine (List.map_congr_left fun x hx => ?_).trans (List.map_id' _)
    obtain ⟨hhere, fields, hlive⟩ := hi.live x hx
    have hkept : ¬ taken x.1 = true := by
      intro htaken
      rw [hnone _ htaken] at hlive
      cases hlive
    refine Prod.ext rfl ?_
    rw [hhere, Data.move, without, if_neg hkept]
  calc m.rearrange (without taken) (without taken)
      = ⟨(m.rearrange (without taken) (without taken)).tree, (m.rearrange (without taken) (without taken)).dirty⟩ := rfl
    _ = m := by rw [htree, hdirty]

theorem isPrefixOf_inside {k : Key} (hq : (h ++ [tag, k]).isPrefixOf q = true) : inside (h ++ [tag]) q = true := by
  obtain ⟨r, rfl⟩ := List.isPrefixOf_iff_prefix.mp hq
  have := inside_append (h ++ [tag]) k r
  simpa using this

theorem Inv.remove (hi : Inv stored m) {k : Key} (hremove : m.remove h tag k = some m')
    (hcov : m.tree (h ++ [tag, k]) = none ∨ DirtyAbove m h) : Inv stored m' := by
  obtain ⟨-, rfl⟩ := remove_eq_some hremove
  rcases hcov with hnone | hcov
  · rw [hi.rearrange_none]
    · exact hi
    · intro q hq
      by_contra hsome
      have hthere := isSome_of_prefix hi.closed (List.isPrefixOf_iff_prefix.mp hq) (Option.isSome_iff_ne_none.mpr hsome)
      rw [hnone] at hthere
      cases hthere
  · refine (hi.rearrange (.without (fun q hq => isPrefixOf_inside hq) fun q k' hq => ?_) hcov).1
    rw [List.isPrefixOf_iff_prefix] at hq ⊢
    exact hq.trans (List.prefix_append _ _)

theorem Inv.clear (hi : Inv stored m) (hclear : m.clear h tag = some m')
    (hcov : (∀ k, m.tree (h ++ [tag, k]) = none) ∨ DirtyAbove m h) : Inv stored m' := by
  obtain ⟨-, rfl⟩ := clear_eq_some hclear
  rcases hcov with hnone | hcov
  · rw [hi.rearrange_none]
    · exact hi
    · intro q hq
      obtain ⟨k, r, rfl⟩ := exists_of_inside hq
      by_contra hsome
      have hpre : h ++ [tag, k] <+: (h ++ [tag]) ++ k :: r := ⟨r, by simp⟩
      have hthere := isSome_of_prefix hi.closed hpre (Option.isSome_iff_ne_none.mpr hsome)
      rw [hnone] at hthere
      cases hthere
  · exact (hi.rearrange (.without (fun q hq => hq) fun q k => (inside_concat · k)) hcov).1

theorem Inv.deleteAt (hi : Inv stored m) {i : Nat} (hdelete : m.deleteAt h tag i = some m') (hcov : DirtyAbove m h) :
    Inv stored m' ∧ DirtyAbove m' h := by
  obtain ⟨n, hlist, -, rfl⟩ := deleteAt_eq_some hdelete
  obtain ⟨hi', hdirty⟩ := hi.rearrange (.shift (h ++ [tag]) (itemBefore n i) (itemAfter n i)) hcov
  have hlist' : (m.rearrange (shift (h ++ [tag]) (itemBefore n i)) (shift (h ++ [tag]) (itemAfter n i))).tree (h ++ [tag]) =
      some (.list n) := by
    rw [tree_rearrange, shift_outside (inside_self _), Option.bind_some, hlist]
  refine ⟨hi'.setLen hlist', ?_⟩
  unfold DirtyAbove
  rw [hdirty]
  exact hcov

theorem foldlM_keeps {α β : Type*} {f : β → α → Option β} {P : β → Prop} (hstep : ∀ b a b', P b → f b a = some b' → P b') :
    ∀ (l : List α) {b b' : β}, P b → l.foldlM f b = some b' → P b'
  | [], _, _, hb, hrun => by
    cases hrun
    exact hb
  | a :: l, b, b', hb, hrun => by
    rw [List.foldlM_cons] at hrun
    obtain ⟨b₁, hcall, hrun⟩ := Option.bind_eq_some_iff.mp hrun
    exact foldlM_keeps hstep l (hstep b a b₁ hb hcall) hrun

theorem Inv.deleteAll (is : List Nat) {m : Model F} (hi : Inv stored m) (hcov : DirtyAbove m h)
    (hrun : is.foldlM (fun m i => m.deleteAt h tag i) m = some m') : Inv stored m' := by
  have hkeep : ∀ (m : Model F) i m', Inv stored m ∧ DirtyAbove m h → m.deleteAt h tag i = some m' →
      Inv stored m' ∧ DirtyAbove m' h := fun _ _ _ hm hdelete => hm.1.deleteAt hdelete hm.2
  exact (foldlM_keeps hkeep is ⟨hi, hcov⟩ hrun).1

theorem Inv.appendOne (hi : Inv stored m) {v : Content F} (happend : m.appendOne h tag v = some m') :
    Inv stored m' := by
  obtain ⟨n, m₁, hlist, hput, rfl⟩ := appendOne_eq_some happend
  obtain ⟨hi₁, hsame⟩ := hi.put (by rw [hlist]; rfl) hput
  exact hi₁.setLen (hsame.trans hlist)

theorem Inv.append (hi : Inv stored m) {vs : List (Content F)} (happend : m.append h tag vs = some m') :
    Inv stored m' :=
  foldlM_keeps (fun _ _ _ hm => hm.appendOne) vs hi happend

/-! ## Runs -/

def Op.Covered (m : Model F) : Op F → Prop
  | .delete h tag k => m.tree (h ++ [tag, k]) = none ∨ DirtyAbove m h
  | .clear h tag => (∀ k, m.tree (h ++ [tag, k]) = none) ∨ DirtyAbove m h
  | .deleteAt h _ _ => DirtyAbove m h
  | .deleteMore h _ is => is = [] ∨ DirtyAbove m h
  | .set _ _ _ _ | .append _ _ _ | .update _ _ _ _ | .save _ _ | .replace _ _ => True

theorem Inv.step (hi : Inv stored m) {op : Op F} (hstep : m.step op = some m') (hcov : op.Covered m) :
    Inv stored m' := by
  cases op with
  | set h tag k v =>
    obtain ⟨hmap, hput⟩ := set_eq_some hstep
    exact (hi.put (by rw [hmap]; rfl) hput).1
  | delete h tag k => exact hi.remove hstep hcov
  | clear h tag => exact hi.clear hstep hcov
  | append h tag vs => exact hi.append hstep
  | update h tag i v =>
    obtain ⟨n, hlist, -, hput⟩ := update_eq_some hstep
    exact (hi.put (by rw [hlist]; rfl) hput).1
  | deleteAt h tag i => exact (hi.deleteAt hstep hcov).1
  | deleteMore h tag is =>
    rcases hcov with rfl | hcov
    · cases hstep
      exact hi
    · exact Inv.deleteAll _ hi hcov hstep
  | save p fields => exact hi.save hstep
  | replace p v => exact hi.replace hstep

def Model.Covered : Model F → List (Op F) → Prop
  | _, [] => True
  | m, op :: ops => op.Covered m ∧ ∀ m', m.step op = some m' → m'.Covered ops

theorem Inv.run : ∀ (ops : List (Op F)) {m m' : Model F}, Inv stored m → m.run ops = some m' → m.Covered ops → Inv stored m'
  | [], _, _, hi, hrun, _ => by
    cases hrun
    exact hi
  | op :: ops, m, m', hi, hrun, hcov => by
    unfold Model.run at hrun
    rw [List.foldlM_cons] at hrun
    obtain ⟨m₁, hstep, hrun⟩ := Option.bind_eq_some_iff.mp hrun
    exact Inv.run ops (hi.step hstep hcov.1) hrun (hcov.2 m₁ hstep)

structure Initialised (t : Tree F) : Prop where
  named : ∀ q name fields, t q = some (.node name fields) → name = q
  closed : ∀ p k, (t (p ++ [k])).isSome → (t p).isSome
  root : ∀ name fields, t [] ≠ some (.node name fields)
  listed : t.Listed

theorem Initialised.inv {t : Tree F} (h : Initialised t) : Inv (marshal t) ⟨t, []⟩ where
  apart := .nil
  live _ hx := by cases hx
  same _ _ := rfl
  named q name fields hnode := .inl (h.named q name fields hnode)
  closed := h.closed
  root := h.root

end

end GameServer.Md
