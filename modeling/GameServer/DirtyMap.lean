import GameServer.DirtyRemovals
import GameServer.GoMap
import GameServer.ListNodes

/-!
# The dirty map of the root

`NodeRoot.addDirty` on the map itself. The loop visits the keys in the order the
runtime picks, gives up at an ancestor of the path and collects the path and
what lies under it. Whatever the order, the keys stay free of ancestors of each
other and cover every path that was added.
-/

namespace GameServer.Md

variable {D : Type}

def hasPrefix (s p : String) : Bool := p.toList.isPrefixOf s.toList

structure NodeRoot (D : Type) where
  dirtyNode : AList fun _ : String => D

namespace NodeRoot

def reset : NodeRoot D := ⟨∅⟩

def scan (path : String) : List String → List String → Option (List String)
  | toDeletePath, [] => some toDeletePath
  | toDeletePath, p :: rest =>
    if p = path then scan path (toDeletePath ++ [p]) rest
    else if hasPrefix path (p ++ ".") then none
    else if hasPrefix p (path ++ ".") then scan path (toDeletePath ++ [p]) rest
    else scan path toDeletePath rest

def addDirty (r : NodeRoot D) (order : List Nat) (path : String) (data : D) : Option (NodeRoot D) :=
  if path = "" then none
  else
    match scan path [] (shuffle order r.dirtyNode.keys) with
    | none => some r
    | some toDeletePath => some ⟨(eraseAll r.dirtyNode toDeletePath).insert path data⟩

end NodeRoot

structure DirtyCall (D : Type) where
  order : List Nat
  path : String
  data : D

def NodeRoot.run (r : NodeRoot D) (calls : List (DirtyCall D)) : Option (NodeRoot D) :=
  calls.foldlM (fun r c => r.addDirty c.order c.path c.data) r

/-! ## Dotted ancestors -/

def Above (p q : String) : Prop := p.toList ++ ['.'] <+: q.toList

instance (p q : String) : Decidable (Above p q) := inferInstanceAs (Decidable (_ <+: _))

variable {q : String} {r r' : NodeRoot D}

theorem hasPrefix_dot_iff {p : String} : hasPrefix q (p ++ ".") = true ↔ Above p q := by
  rw [hasPrefix, String.toList_append, List.isPrefixOf_iff_prefix]
  rfl

theorem Above.trans {p r : String} (hpq : Above p q) (hqr : Above q r) : Above p r :=
  List.IsPrefix.trans hpq ((List.prefix_append q.toList ['.']).trans hqr)

theorem Above.length_lt {p : String} (h : Above p q) : p.toList.length < q.toList.length := by
  have := h.length_le
  rw [List.length_append, List.length_singleton] at this
  omega

theorem Above.ne {p : String} (h : Above p q) : p ≠ q := fun heq => absurd h.length_lt (heq ▸ lt_irrefl _)

/-! ## One call -/

theorem scan_eq (path : String) (toDelete keys : List String) :
    NodeRoot.scan path toDelete keys =
      if ∃ p ∈ keys, Above p path then none
      else some (toDelete ++ keys.filter fun p => p = path ∨ Above path p) := by
  induction keys generalizing toDelete with
  | nil => simp [NodeRoot.scan]
  | cons p rest ih =>
    rw [NodeRoot.scan]
    simp only [hasPrefix_dot_iff, List.mem_cons, exists_eq_or_imp, ih]
    by_cases hp : p = path
    · subst hp
      simp [show ¬ Above p p from fun h => h.ne rfl]
    by_cases habove : Above p path
    · simp [hp, habove]
    by_cases hunder : Above path p <;> simp [hp, habove, hunder]

def Covered (r : NodeRoot D) (path : String) : Prop := ∃ p ∈ r.dirtyNode.keys, Above p path

def added (r : NodeRoot D) (path : String) (data : D) (q : String) : Option D :=
  if q = path then some data else if Above path q then none else r.dirtyNode.lookup q

theorem addDirty_covered {path : String} (hpath : path ≠ "") (hc : Covered r path) (order : List Nat) (data : D) :
    r.addDirty order path data = some r := by
  have hcovered : ∃ p ∈ shuffle order r.dirtyNode.keys, Above p path := by
    obtain ⟨p, hp, habove⟩ := hc
    exact ⟨p, mem_shuffle.mpr hp, habove⟩
  rw [NodeRoot.addDirty, if_neg hpath, scan_eq, if_pos hcovered]

theorem addDirty_new {path : String} (hpath : path ≠ "") (hc : ¬ Covered r path) (order : List Nat) (data : D) :
    ∃ r', r.addDirty order path data = some r' ∧ ∀ q, r'.dirtyNode.lookup q = added r path data q := by
  have hnew : ¬ ∃ p ∈ shuffle order r.dirtyNode.keys, Above p path := by
    rintro ⟨p, hp, habove⟩
    exact hc ⟨p, mem_shuffle.mp hp, habove⟩
  rw [NodeRoot.addDirty, if_neg hpath, scan_eq, if_neg hnew]
  refine ⟨_, rfl, fun q => ?_⟩
  rw [added]
  by_cases hq : q = path
  · rw [hq, if_pos rfl, AList.lookup_insert]
  rw [if_neg hq, AList.lookup_insert_ne hq, lookup_eraseAll]
  simp only [List.nil_append, List.mem_filter, mem_shuffle, hq, false_or, decide_eq_true_eq]
  by_cases hunder : Above path q
  · -- deleted if it was a key, and no key otherwise
    by_cases hmem : q ∈ r.dirtyNode.keys
    · rw [if_pos ⟨hmem, hunder⟩, if_pos hunder]
    · rw [if_neg fun h => hmem h.1, if_pos hunder, AList.lookup_eq_none.mpr fun h => hmem (AList.mem_keys.mp h)]
  · rw [if_neg fun h => hunder h.2, if_neg hunder]

theorem mem_keys_iff : q ∈ r.dirtyNode.keys ↔ (r.dirtyNode.lookup q).isSome := by
  rw [AList.lookup_isSome, AList.mem_keys]

theorem mem_keys_added {path : String} {data : D} (h : ∀ q, r'.dirtyNode.lookup q = added r path data q) :
    q ∈ r'.dirtyNode.keys ↔ q = path ∨ q ∈ r.dirtyNode.keys ∧ ¬ Above path q := by
  rw [mem_keys_iff, mem_keys_iff, h, added]
  by_cases hq : q = path
  · simp [hq]
  by_cases hunder : Above path q <;> simp [hq, hunder]

/-! ## The table and the lists of the document model -/

section Document

variable {F : Type} {table : NodeRoot (Data F)} {dirty : List (Path × Data F)} {m m' : Model F} {h : Path} {tag : Key}

def Tabulates (table : NodeRoot (Data F)) (dirty : List (Path × Data F)) : Prop :=
  ∀ q, table.dirtyNode.lookup q = (dirty.find? fun x => String.ofList x.1.text = q).map (·.2)

theorem above_text_iff {p q : Path} : Above (String.ofList p.text) (String.ofList q.text) ↔ q.under p = true := by
  rw [Path.under, List.isPrefixOf_iff_prefix, Above, String.toList_ofList, String.toList_ofList]

theorem Tabulates.covered_iff (ht : Tabulates table dirty) {path : Path} :
    Covered table (String.ofList path.text) ↔ (dirty.any fun x => path.under x.1) = true := by
  simp only [Covered, mem_keys_iff, ht _, Option.isSome_map, List.find?_isSome, decide_eq_true_eq, List.any_eq_true,
    ← above_text_iff]
  constructor
  · rintro ⟨_, ⟨x, hx, rfl⟩, habove⟩
    exact ⟨x, hx, habove⟩
  · rintro ⟨x, hx, habove⟩
    exact ⟨_, ⟨x, hx, rfl⟩, habove⟩

/-- The model's list of paths is the map, in whatever order its keys are visited. -/
theorem Tabulates.addDirty (ht : Tabulates table dirty) {path : Path} (hpath : path.text ≠ []) (order : List Nat)
    (data : Data F) :
    ∃ table', table.addDirty order (String.ofList path.text) data = some table' ∧
      Tabulates table' (Md.addDirty path data dirty) := by
  have hne : String.ofList path.text ≠ "" := fun heq => hpath (by simpa using congrArg String.toList heq)
  unfold Md.addDirty
  by_cases hc : Covered table (String.ofList path.text)
  · rw [if_pos (ht.covered_iff.mp hc)]
    exact ⟨table, addDirty_covered hne hc order data, ht⟩
  rw [if_neg fun hany => hc (ht.covered_iff.mpr hany)]
  obtain ⟨table', hadd, hlookup⟩ := addDirty_new hne hc order data
  refine ⟨table', hadd, fun q => ?_⟩
  rw [hlookup, added, List.find?_cons]
  by_cases hq : q = String.ofList path.text
  · simp [hq]
  simp only [hq, Ne.symm hq, decide_false, if_false, List.find?_filter]
  have htext : ∀ x : Path × Data F, String.ofList x.1.text = q → (x.1.text == path.text) = false := by
    rintro x rfl
    exact beq_eq_false_iff_ne.mpr fun heq => hq (by rw [heq])
  split
  next hunder =>
    symm
    rw [Option.map_eq_none_iff, List.find?_eq_none]
    intro x _ hx
    simp only [decide_eq_true_eq, Bool.not_eq_true', Bool.or_eq_false_iff] at hx
    rw [← hx.2, above_text_iff, hx.1.2] at hunder
    cases hunder
  next hunder =>
    rw [ht q]
    congr 2
    funext x
    by_cases hx : String.ofList x.1.text = q
    · have hover : x.1.under path = false := Bool.eq_false_iff.mpr fun h => hunder (hx ▸ above_text_iff.mpr h)
      simp [htext x hx, hover, hx]
    · simp [hx]

/-- The list at `p` with the nodes of `list`, which report themselves under their paths. -/
structure Lists (m : Model F) (p : Path) (list : NodeList F) : Prop where
  len : m.tree p = some (.list list.nodes.length)
  nodes : ∀ i node, list.nodes[i]? = some node →
    ∃ name : Path, node.path = String.ofList name.text ∧ m.tree (p ++ [index i]) = some (.node name node.data)

/-- `Delete` is the same in the tree and on the slice of nodes. -/
theorem Lists.delete {list : NodeList F} (hl : Lists m (h ++ [tag]) list) {i : Nat}
    (hdelete : m.deleteAt h tag i = some m') : ∃ list', list.delete i = some list' ∧ Lists m' (h ++ [tag]) list' := by
  obtain ⟨n, hlist, hin, rfl⟩ := deleteAt_eq_some hdelete
  obtain rfl : list.nodes.length = n := by simpa [hl.len] using hlist
  refine ⟨_, delete_in_range list hin, ?_, fun j node hnode => ?_⟩
  · simp [Tree.setHead, List.length_eraseIdx, hin]
  · have hne : h ++ [tag] ++ [index j] ≠ h ++ [tag] := by simp
    rw [List.getElem?_eraseIdx] at hnode
    simp only [Tree.setHead, if_neg hne, tree_rearrange, shift_append]
    split at hnode
    next hj =>
      have hitem := item?_eq_some.mpr ⟨rfl, hj.trans hin⟩
      simpa [itemBefore, hitem, hj] using hl.nodes j node hnode
    next hj =>
      have hlt : j + 1 < list.nodes.length := (List.getElem?_eq_some_iff.mp hnode).1
      have hitem := item?_eq_some.mpr ⟨rfl, Nat.lt_of_succ_lt hlt⟩
      simpa [itemBefore, hitem, hj, hlt] using hl.nodes (j + 1) node hnode

end Document

/-! ## Runs -/

def latest (calls : List (DirtyCall D)) (path : String) : Option D :=
  (calls.reverse.find? fun c => c.path = path).map (·.data)

theorem latest_snoc (calls : List (DirtyCall D)) (c : DirtyCall D) (path : String) :
    latest (calls ++ [c]) path = if c.path = path then some c.data else latest calls path := by
  rw [latest, List.reverse_append, List.reverse_singleton, List.singleton_append, List.find?_cons]
  by_cases h : c.path = path <;> simp [h, latest]

/-- What the map is after the calls: no key above another, every added path
covered, every key with the data of its latest addition. -/
structure Sound (calls : List (DirtyCall D)) (r : NodeRoot D) : Prop where
  apart : ∀ p ∈ r.dirtyNode.keys, ∀ q ∈ r.dirtyNode.keys, ¬ Above p q
  covers : ∀ c ∈ calls, ∃ k ∈ r.dirtyNode.keys, k = c.path ∨ Above k c.path
  latest : ∀ k d, r.dirtyNode.lookup k = some d → latest calls k = some d

theorem Sound.covered {calls : List (DirtyCall D)} (h : Sound calls r) {c : DirtyCall D} (hc : Covered r c.path) :
    Sound (calls ++ [c]) r := by
  obtain ⟨p, hp, habove⟩ := hc
  refine ⟨h.apart, ?_, ?_⟩
  · intro c' hc'
    rcases List.mem_append.mp hc' with hc' | hc'
    · exact h.covers c' hc'
    · rw [List.mem_singleton.mp hc']
      exact ⟨p, hp, .inr habove⟩
  · intro k d hk
    -- the path is not a key itself, because its ancestor is one
    have hkey : k ∈ r.dirtyNode.keys := mem_keys_iff.mpr (by rw [hk]; rfl)
    have hne : c.path ≠ k := fun heq => h.apart p hp k hkey (heq ▸ habove)
    rw [latest_snoc, if_neg hne]
    exact h.latest k d hk

theorem Sound.added {calls : List (DirtyCall D)} (h : Sound calls r) {c : DirtyCall D} (hc : ¬ Covered r c.path)
    (hr' : ∀ q, r'.dirtyNode.lookup q = added r c.path c.data q) :
    Sound (calls ++ [c]) r' := by
  refine ⟨?_, ?_, ?_⟩
  · intro p hp q hq habove
    rcases (mem_keys_added hr').mp hp with rfl | ⟨hp, -⟩
    · rcases (mem_keys_added hr').mp hq with rfl | ⟨-, hunder⟩
      · exact habove.ne rfl
      · exact hunder habove
    · rcases (mem_keys_added hr').mp hq with rfl | ⟨hq, -⟩
      · exact hc ⟨p, hp, habove⟩
      · exact h.apart p hp q hq habove
  · intro c' hc'
    rcases List.mem_append.mp hc' with hc' | hc'
    · obtain ⟨k, hk, hcov⟩ := h.covers c' hc'
      by_cases hunder : Above c.path k
      · -- the key that covered it is gone, and the new one is above that
        refine ⟨c.path, (mem_keys_added hr').mpr (.inl rfl), .inr ?_⟩
        rcases hcov with rfl | hcov
        · exact hunder
        · exact hunder.trans hcov
      · exact ⟨k, (mem_keys_added hr').mpr (.inr ⟨hk, hunder⟩), hcov⟩
    · rw [List.mem_singleton.mp hc']
      exact ⟨c.path, (mem_keys_added hr').mpr (.inl rfl), .inl rfl⟩
  · intro k d hk
    rw [hr', Md.added] at hk
    rw [latest_snoc]
    by_cases hpath : k = c.path
    · rw [if_pos hpath] at hk
      rw [if_pos hpath.symm, hk]
    · rw [if_neg hpath] at hk
      rw [if_neg (Ne.symm hpath)]
      split at hk
      · cases hk
      · exact h.latest k d hk

theorem NodeRoot.run_snoc (r : NodeRoot D) (calls : List (DirtyCall D)) (c : DirtyCall D) :
    r.run (calls ++ [c]) = (r.run calls).bind fun r' => r'.addDirty c.order c.path c.data := by
  simp [NodeRoot.run, List.foldlM_append]

theorem sound_run (calls : List (DirtyCall D)) (hpaths : ∀ c ∈ calls, c.path ≠ "") :
    ∃ r, NodeRoot.reset.run calls = some r ∧ Sound calls r := by
  induction calls using List.reverseRecOn with
  | nil => exact ⟨_, rfl, by simp [NodeRoot.reset], by simp, by simp [NodeRoot.reset]⟩
  | append_singleton calls c ih =>
    obtain ⟨r, hrun, hr⟩ := ih fun c' hc' => hpaths c' (List.mem_append_left _ hc')
    have hpath := hpaths c (by simp)
    by_cases hc : Covered r c.path
    · refine ⟨r, ?_, hr.covered hc⟩
      rw [NodeRoot.run_snoc, hrun]
      exact addDirty_covered hpath hc c.order c.data
    · obtain ⟨r', hadd, hr'⟩ := addDirty_new hpath hc c.order c.data
      refine ⟨r', ?_, hr.added hc hr'⟩
      rw [NodeRoot.run_snoc, hrun]
      exact hadd

def Same (r r' : NodeRoot D) : Prop := ∀ q, r.dirtyNode.lookup q = r'.dirtyNode.lookup q

theorem Same.covered_iff (h : Same r r') {path : String} : Covered r path ↔ Covered r' path := by
  simp only [Covered, mem_keys_iff, h _]

theorem Same.addDirty (h : Same r r') {path : String} (hpath : path ≠ "") (order order' : List Nat) (data : D) :
    ∃ s s', r.addDirty order path data = some s ∧ r'.addDirty order' path data = some s' ∧ Same s s' := by
  by_cases hc : Covered r path
  · exact ⟨r, r', addDirty_covered hpath hc order data, addDirty_covered hpath (h.covered_iff.mp hc) order' data, h⟩
  · obtain ⟨s, hadd, hs⟩ := addDirty_new hpath hc order data
    obtain ⟨s', hadd', hs'⟩ := addDirty_new hpath (fun hc' => hc (h.covered_iff.mpr hc')) order' data
    refine ⟨s, s', hadd, hadd', fun q => ?_⟩
    rw [hs, hs', added, added, h q]

theorem same_run {calls calls' : List (DirtyCall D)} (hpaths : ∀ c ∈ calls, c.path ≠ "")
    (hsame : List.Forall₂ (fun c c' => c.path = c'.path ∧ c.data = c'.data) calls calls') (h : Same r r') :
    ∃ s s', r.run calls = some s ∧ r'.run calls' = some s' ∧ Same s s' := by
  induction hsame generalizing r r' with
  | nil => exact ⟨r, r', rfl, rfl, h⟩
  | @cons c c' calls calls' hc _ ih =>
    obtain ⟨hpath, hrest⟩ := List.forall_mem_cons.mp hpaths
    obtain ⟨s, s', hadd, hadd', hs⟩ := h.addDirty hpath c.order c'.order c.data
    obtain ⟨t, t', hrun, hrun', ht⟩ := ih hrest hs
    refine ⟨t, t', ?_, ?_, ht⟩
    · rw [NodeRoot.run, List.foldlM_cons, hadd]; exact hrun
    · rw [NodeRoot.run, List.foldlM_cons, ← hc.1, ← hc.2, hadd']; exact hrun'

/-- After any additions since the last `ResetDirty`, in any orders of iteration:
no key is above another, every added path is covered, every key has the data of
its latest addition, and other orders give the same map. -/
theorem dirty_map_sound (calls : List (DirtyCall D)) (hpaths : ∀ c ∈ calls, c.path ≠ "") :
    ∃ r, NodeRoot.reset.run calls = some r ∧
      (∀ p ∈ r.dirtyNode.keys, ∀ q ∈ r.dirtyNode.keys, ¬ Above p q) ∧
      (∀ c ∈ calls, ∃ k ∈ r.dirtyNode.keys, k = c.path ∨ Above k c.path) ∧
      (∀ k d, r.dirtyNode.lookup k = some d → (∃ c ∈ calls, c.path = k) ∧ latest calls k = some d) ∧
      ∀ calls', List.Forall₂ (fun c c' => c.path = c'.path ∧ c.data = c'.data) calls calls' →
        ∃ r', NodeRoot.reset.run calls' = some r' ∧ Same r r' := by
  obtain ⟨r, hrun, hr⟩ := sound_run calls hpaths
  refine ⟨r, hrun, hr.apart, hr.covers, ?_, ?_⟩
  · intro k d hk
    have hlatest := hr.latest k d hk
    obtain ⟨c, hfind, -⟩ := Option.map_eq_some_iff.mp hlatest
    refine ⟨⟨c, List.mem_reverse.mp (List.mem_of_find?_eq_some hfind), ?_⟩, hlatest⟩
    simpa using List.find?_some hfind
  · intro calls' hsame
    have hreset : Same (NodeRoot.reset : NodeRoot D) NodeRoot.reset := fun _ => rfl
    obtain ⟨s, s', hs, hs', h⟩ := same_run hpaths hsame hreset
    obtain rfl := Option.some.inj (hs.symm.trans hrun)
    exact ⟨s', hs', h⟩

theorem dirty_map_role :
    ∃ r, NodeRoot.reset.run [⟨[], "role.bag.sword", 1⟩, ⟨[1], "roles", 2⟩, ⟨[0, 1], "role", 3⟩] = some r ∧
      (∀ p ∈ r.dirtyNode.keys, ∀ q ∈ r.dirtyNode.keys, ¬ Above p q) ∧
      r.dirtyNode.lookup "role.bag.sword" = none ∧ r.dirtyNode.lookup "role" = some 3 := by
  obtain ⟨r, hrun, hapart, -⟩ :=
    dirty_map_sound [⟨[], "role.bag.sword", 1⟩, ⟨[1], "roles", 2⟩, ⟨[0, 1], "role", 3⟩] (by decide)
  have hlookups : (NodeRoot.reset.run [⟨[], "role.bag.sword", 1⟩, ⟨[1], "roles", 2⟩, ⟨[0, 1], "role", 3⟩]).map
      (fun r => (r.dirtyNode.lookup "role.bag.sword", r.dirtyNode.lookup "role")) = some (none, some 3) := by decide
  rw [hrun, Option.map_some, Option.some.injEq, Prod.mk.injEq] at hlookups
  exact ⟨r, hrun, hapart, hlookups⟩

end GameServer.Md
