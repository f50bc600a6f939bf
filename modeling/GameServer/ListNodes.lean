import GameServer.Go
import Mathlib.Data.List.Sort
import Mathlib.Data.List.Nodup
import Mathlib.Data.List.Induction

/-!
# Lists of nodes

`List` of the package `md`, as the slice of nodes it is. A node reports itself
under the path that `initNode` gave it. `Append` and `Update` give the path of
the slot; `Delete` moves the nodes behind it and leaves them their paths.
-/

namespace GameServer.Md

variable {T : Type}

structure ListNode (T : Type) where
  data : T
  path : String := ""

/-- `schema` is the `BsonTagName` of the list's schema, `none` for nil; `reported`
are the calls of `addDirty` that its parent got. -/
structure NodeList (T : Type) where
  nodes : List (ListNode T)
  schema : Option String := none
  reported : List (String × T) := []

def itemPath (tag : String) (idx : Nat) : String := tag ++ "." ++ toString idx

variable {tag : String} {list list' : NodeList T} {idxs : List Int}

theorem itemPath_inj {i j : Nat} (h : itemPath tag i = itemPath tag j) : i = j := by
  have hlist := congrArg String.toList h
  simp only [itemPath, String.toList_append] at hlist
  exact natRepr_inj (String.toList_inj.mp (List.append_cancel_left hlist))

namespace NodeList

def init (list : NodeList T) (tag : String) : NodeList T where
  nodes := list.nodes.mapIdx fun i node => { node with path := itemPath tag i }
  schema := some tag
  reported := list.reported

/-- `Get(idx).Save()`. A call that panics is `none`. -/
def save (list : NodeList T) (idx : Nat) : Option (NodeList T) :=
  (list.nodes[idx]?).map fun node => { list with reported := list.reported ++ [(node.path, node.data)] }

def newNode (list : NodeList T) (idx : Nat) (data : T) : ListNode T × List (String × T) :=
  match list.schema with
  | none => ({ data }, list.reported)
  | some tag => ({ data, path := itemPath tag idx }, list.reported ++ [(itemPath tag idx, data)])

def update (list : NodeList T) (idx : Int) (data : T) : Option (NodeList T) :=
  if 0 ≤ idx ∧ idx < list.nodes.length then
    let (node, reported) := list.newNode idx.toNat data
    some { list with nodes := list.nodes.set idx.toNat node, reported }
  else none

def appendOne (list : NodeList T) (data : T) : NodeList T :=
  let (node, reported) := list.newNode list.nodes.length data
  { list with nodes := list.nodes ++ [node], reported }

def append (list : NodeList T) (datas : List T) : NodeList T := datas.foldl appendOne list

def delete (list : NodeList T) (idx : Int) : Option (NodeList T) :=
  if 0 ≤ idx ∧ idx < list.nodes.length then
    some { list with nodes := list.nodes.take idx.toNat ++ list.nodes.drop (idx.toNat + 1) }
  else none

def deleteMore (list : NodeList T) (idxs : List Int) : Option (NodeList T) :=
  (idxs.insertionSort (· ≥ ·)).foldlM delete list

end NodeList

inductive ListOp (T : Type)
  | append (datas : List T)
  | update (idx : Int) (data : T)
  | delete (idx : Int)
  | deleteMore (idxs : List Int)

def NodeList.step (list : NodeList T) : ListOp T → Option (NodeList T)
  | .append datas => some (list.append datas)
  | .update idx data => list.update idx data
  | .delete idx => list.delete idx
  | .deleteMore idxs => list.deleteMore idxs

def NodeList.run (list : NodeList T) (ops : List (ListOp T)) : Option (NodeList T) := ops.foldlM NodeList.step list

/-! ## One deletion -/

theorem delete_eq_some {idx : Int} (h : list.delete idx = some list') :
    0 ≤ idx ∧ idx < list.nodes.length ∧ list' = { list with nodes := list.nodes.eraseIdx idx.toNat } := by
  unfold NodeList.delete at h
  split at h
  · rename_i hrange
    refine ⟨hrange.1, hrange.2, ?_⟩
    rw [List.eraseIdx_eq_take_drop_succ]
    exact (Option.some.inj h).symm
  · cases h

theorem delete_in_range (list : NodeList T) {i : Nat} (h : i < list.nodes.length) :
    list.delete i = some { list with nodes := list.nodes.eraseIdx i } := by
  have hrange : (0 : Int) ≤ i ∧ (i : Int) < list.nodes.length := ⟨Int.natCast_nonneg i, Int.ofNat_lt.mpr h⟩
  rw [NodeList.delete, if_pos hrange, List.eraseIdx_eq_take_drop_succ, Int.toNat_natCast]

/-! ## Deletion of several positions -/

def keptNodes (nodes : List (ListNode T)) (idxs : List Int) : List (ListNode T) :=
  (nodes.zipIdx.filter fun x => (x.2 : Int) ∉ idxs).map Prod.fst

theorem keep_behind {nodes : List (ListNode T)} {k : Nat} (h : ∀ i ∈ idxs, i < k) :
    ((nodes.zipIdx k).filter fun x => (x.2 : Int) ∉ idxs).map Prod.fst = nodes := by
  have hall : (nodes.zipIdx k).filter (fun x => (x.2 : Int) ∉ idxs) = nodes.zipIdx k := by
    refine List.filter_eq_self.mpr fun x hx => decide_eq_true fun hmem => ?_
    have := List.le_snd_of_mem_zipIdx hx
    have := h _ hmem
    omega
  rw [hall, List.zipIdx_map_fst]

theorem keptNodes_congr (nodes : List (ListNode T)) {idxs' : List Int} (h : ∀ i, i ∈ idxs ↔ i ∈ idxs') :
    keptNodes nodes idxs = keptNodes nodes idxs' := by
  simp only [keptNodes, h]

theorem keptNodes_eraseIdx {nodes : List (ListNode T)} {i : Nat} (hi : i < nodes.length) (h : ∀ j ∈ idxs, j < i) :
    keptNodes (nodes.eraseIdx i) idxs = keptNodes nodes (i :: idxs) := by
  have hsplit : nodes = nodes.take i ++ nodes[i] :: nodes.drop (i + 1) := by
    rw [← List.drop_eq_getElem_cons hi, List.take_append_drop]
  have hlen : (nodes.take i).length = i := List.length_take_of_le hi.le
  have hbefore : ((nodes.take i).zipIdx.filter fun x => (x.2 : Int) ∉ idxs) =
      (nodes.take i).zipIdx.filter fun x => (x.2 : Int) ∉ (i : Int) :: idxs := by
    refine List.filter_congr fun x hx => ?_
    have hlt := List.snd_lt_add_of_mem_zipIdx hx
    rw [hlen] at hlt
    have hne : (x.2 : Int) ≠ i := by omega
    simp [hne]
  have hself : ¬ (i : Int) ∉ (i : Int) :: idxs := by simp
  have hsucc : ∀ j ∈ (i : Int) :: idxs, j < (i + 1 : Nat) := by
    intro j hj
    rcases List.mem_cons.mp hj with rfl | hj
    · omega
    · have := h j hj; omega
  calc keptNodes (nodes.eraseIdx i) idxs
      = ((nodes.take i).zipIdx.filter fun x => (x.2 : Int) ∉ idxs).map Prod.fst ++ nodes.drop (i + 1) := by
        rw [keptNodes, List.eraseIdx_eq_take_drop_succ, List.zipIdx_append, List.filter_append, List.map_append, hlen,
          Nat.zero_add, keep_behind h]
    _ = keptNodes nodes (i :: idxs) := by
        conv_rhs => rw [hsplit]
        rw [keptNodes, List.zipIdx_append, List.filter_append, List.map_append, hlen, Nat.zero_add, hbefore,
          List.zipIdx_cons, List.filter_cons_of_neg (by simp), keep_behind hsucc]

theorem foldlM_delete (hdesc : idxs.Pairwise (· > ·)) (list : NodeList T)
    (hrange : ∀ i ∈ idxs, 0 ≤ i ∧ i < list.nodes.length) :
    idxs.foldlM NodeList.delete list = some { list with nodes := keptNodes list.nodes idxs } := by
  induction idxs generalizing list with
  | nil => rw [keptNodes, keep_behind (by simp)]; rfl
  | cons i idxs ih =>
    obtain ⟨hlater, htail⟩ := List.pairwise_cons.mp hdesc
    obtain ⟨⟨hpos, hlt⟩, hrest⟩ := List.forall_mem_cons.mp hrange
    obtain ⟨n, rfl⟩ := Int.eq_ofNat_of_zero_le hpos
    have hn : n < list.nodes.length := Int.ofNat_lt.mp hlt
    rw [List.foldlM_cons, delete_in_range list hn]
    change idxs.foldlM NodeList.delete _ = _
    -- what is left to delete lies before position n, so it is still in range
    rw [ih htail _ fun j hj => ⟨(hrest j hj).1, ?_⟩, keptNodes_eraseIdx hn hlater]
    have := hlater j hj
    rw [List.length_eraseIdx_of_lt hn]
    omega

/-- `DeleteMore` takes out the nodes at the given positions and no others,
whatever the order in which distinct positions are given. -/
theorem deleteMore_removes (list : NodeList T) (idxs : List Int) (hdistinct : idxs.Nodup)
    (hrange : ∀ i ∈ idxs, 0 ≤ i ∧ i < list.nodes.length) :
    list.deleteMore idxs = some { list with nodes := keptNodes list.nodes idxs } := by
  have hmem : ∀ i, i ∈ idxs.insertionSort (· ≥ ·) ↔ i ∈ idxs := fun i => List.mem_insertionSort _
  have hdesc : (idxs.insertionSort (· ≥ ·)).Pairwise (· > ·) := by
    refine (List.pairwise_insertionSort (· ≥ ·) idxs).imp₂ (fun _ _ hge hne => lt_of_le_of_ne hge (Ne.symm hne)) ?_
    exact (List.perm_insertionSort _ idxs).nodup_iff.mpr hdistinct
  rw [NodeList.deleteMore, foldlM_delete hdesc list fun i hi => hrange i ((hmem i).mp hi), keptNodes_congr _ hmem]

def bagList : NodeList Nat := NodeList.init ⟨[⟨10, ""⟩, ⟨11, ""⟩, ⟨12, ""⟩], none, []⟩ "bag"

theorem deleteMore_removes_two :
    bagList.deleteMore [0, 2] = some { bagList with nodes := [⟨11, "bag.1"⟩] } :=
  deleteMore_removes bagList [0, 2] (by decide) (by decide)

/-! ## Paths and positions -/

def Positioned (tag : String) (list : NodeList T) : Prop :=
  ∀ i node, list.nodes[i]? = some node → node.path = itemPath tag i ∧
    list.save i = some { list with reported := list.reported ++ [(itemPath tag i, node.data)] }

theorem positioned_iff :
    Positioned tag list ↔ ∀ i node, list.nodes[i]? = some node → node.path = itemPath tag i := by
  refine ⟨fun h i node hnode => (h i node hnode).1, fun h i node hnode => ⟨h i node hnode, ?_⟩⟩
  rw [NodeList.save, hnode, Option.map_some, h i node hnode]

theorem positioned_init (list : NodeList T) (tag : String) : Positioned tag (list.init tag) := by
  refine positioned_iff.mpr fun i node hnode => ?_
  rw [NodeList.init, List.getElem?_mapIdx] at hnode
  obtain ⟨node₀, -, rfl⟩ := Option.map_eq_some_iff.mp hnode
  rfl

structure Placed (tag : String) (list : NodeList T) : Prop where
  schema : list.schema = some tag
  positioned : Positioned tag list

theorem newNode_path (h : list.schema = some tag) (idx : Nat) (data : T) :
    (list.newNode idx data).1.path = itemPath tag idx := by
  rw [NodeList.newNode, h]

theorem Placed.appendOne (h : Placed tag list) (data : T) :
    Placed tag (list.appendOne data) := by
  refine ⟨h.schema, positioned_iff.mpr fun i node hnode => ?_⟩
  have hnode : (list.nodes ++ [(list.newNode list.nodes.length data).1])[i]? = some node := hnode
  rcases Nat.lt_or_ge i list.nodes.length with hlt | hge
  · rw [List.getElem?_append_left hlt] at hnode
    exact positioned_iff.mp h.positioned i node hnode
  · rw [List.getElem?_append_right hge, List.getElem?_singleton] at hnode
    split at hnode
    · cases hnode
      rw [newNode_path h.schema, show i = list.nodes.length by omega]
    · cases hnode

theorem Placed.append (h : Placed tag list) (datas : List T) :
    Placed tag (list.append datas) := by
  unfold NodeList.append
  induction datas generalizing list with
  | nil => exact h
  | cons data datas ih => exact ih (h.appendOne data)

theorem Placed.update (h : Placed tag list) {idx : Int} {data : T} (hupdate : list.update idx data = some list') :
    Placed tag list' := by
  unfold NodeList.update at hupdate
  split at hupdate
  · obtain rfl := Option.some.inj hupdate
    refine ⟨h.schema, positioned_iff.mpr fun i node hnode => ?_⟩
    have hnode : (list.nodes.set idx.toNat (list.newNode idx.toNat data).1)[i]? = some node := hnode
    rw [List.getElem?_set] at hnode
    split at hnode
    · rename_i heq
      split at hnode
      · cases hnode
        rw [newNode_path h.schema, heq]
      · cases hnode
    · exact positioned_iff.mp h.positioned i node hnode
  · cases hupdate

/-! What deletions leave behind: a node never moves back, and those before all
deleted positions do not move. -/

theorem delete_getElem? {idx : Int} (h : list.delete idx = some list') (j : Nat) :
    list'.nodes[j]? = if (j : Int) < idx then list.nodes[j]? else list.nodes[j + 1]? := by
  obtain ⟨hpos, -, rfl⟩ := delete_eq_some h
  rw [List.getElem?_eraseIdx]
  have : j < idx.toNat ↔ (j : Int) < idx := Int.lt_toNat
  simp only [this]

theorem foldlM_delete_getElem? {m : Int} (hm : ∀ i ∈ idxs, m ≤ i) (h : idxs.foldlM NodeList.delete list = some list')
    (j : Nat) :
    ∃ k, j ≤ k ∧ ((j : Int) < m → k = j) ∧ list'.nodes[j]? = list.nodes[k]? := by
  induction idxs generalizing list with
  | nil =>
    obtain rfl := Option.some.inj h
    exact ⟨j, Nat.le_refl j, fun _ => rfl, rfl⟩
  | cons i idxs ih =>
    rw [List.foldlM_cons] at h
    obtain ⟨list₁, hdelete, h⟩ := Option.bind_eq_some_iff.mp h
    obtain ⟨hi, hm⟩ := List.forall_mem_cons.mp hm
    obtain ⟨k, hjk, hfix, heq⟩ := ih hm h
    rw [heq, delete_getElem? hdelete k]
    split
    · exact ⟨k, hjk, hfix, rfl⟩
    · refine ⟨k + 1, Nat.le_succ_of_le hjk, fun hj => ?_, rfl⟩
      have := hfix hj
      omega

theorem foldlM_delete_frame (h : idxs.foldlM NodeList.delete list = some list') :
    list'.nodes.length + idxs.length = list.nodes.length ∧ list'.schema = list.schema := by
  induction idxs generalizing list with
  | nil => obtain rfl := Option.some.inj h; exact ⟨rfl, rfl⟩
  | cons i idxs ih =>
    rw [List.foldlM_cons] at h
    obtain ⟨list₁, hdelete, h⟩ := Option.bind_eq_some_iff.mp h
    obtain ⟨hpos, hlt, rfl⟩ := delete_eq_some hdelete
    have hlen := List.length_eraseIdx_of_lt (l := list.nodes) (i := i.toNat) (by omega)
    obtain ⟨hrest, hschema⟩ := ih h
    refine ⟨?_, hschema⟩
    rw [List.length_cons]
    simp only [hlen] at hrest
    omega

/-- The positions are the last ones of a list of length `n`: from the first of
them on there is nothing but what is deleted. -/
def Last (n : Nat) (idxs : List Int) : Prop := ∀ i ∈ idxs, (n : Int) ≤ i + idxs.length

theorem positioned_foldlM_delete_iff {i : Int} (hi : ∀ j ∈ idxs, i ≤ j) (h : Placed tag list)
    (hrun : (idxs ++ [i]).foldlM NodeList.delete list = some list') :
    Positioned tag list' ↔ Last list.nodes.length (idxs ++ [i]) := by
  have hlen := (foldlM_delete_frame hrun).1
  have hmin : ∀ j ∈ idxs ++ [i], i ≤ j := by
    intro j hj
    rcases List.mem_append.mp hj with hj | hj
    · exact hi j hj
    · rw [List.mem_singleton.mp hj]
  constructor
  · intro hpos j hj
    by_contra hgap
    -- slot i is taken by a node from behind it, whose path is another
    rw [List.foldlM_append] at hrun
    obtain ⟨list₁, hfirst, hlast⟩ := Option.bind_eq_some_iff.mp hrun
    obtain ⟨list₂, hdelete, hnil⟩ := Option.bind_eq_some_iff.mp hlast
    obtain rfl := Option.some.inj hnil
    obtain ⟨hi0, -, -⟩ := delete_eq_some hdelete
    obtain ⟨n, rfl⟩ := Int.eq_ofNat_of_zero_le hi0
    have hlt : n < list₂.nodes.length := by have := hmin j hj; omega
    obtain ⟨k, hk, -, hnode⟩ := foldlM_delete_getElem? hi hfirst (n + 1)
    have hget := List.getElem?_eq_getElem hlt
    have hpath := positioned_iff.mp hpos n _ hget
    rw [delete_getElem? hdelete n, if_neg (lt_irrefl _), hnode] at hget
    have := itemPath_inj ((positioned_iff.mp h.positioned k _ hget).symm.trans hpath)
    omega
  · intro hlast
    refine positioned_iff.mpr fun j node hnode => ?_
    have hj := (List.getElem?_eq_some_iff.mp hnode).1
    have := hlast i (by simp)
    obtain ⟨k, -, hfix, hget⟩ := foldlM_delete_getElem? hmin hrun j
    rw [hfix (by omega)] at hget
    exact positioned_iff.mp h.positioned j node (hget ▸ hnode)

theorem positioned_deleteMore_iff (h : Placed tag list) (hrun : list.deleteMore idxs = some list') :
    Positioned tag list' ↔ Last list.nodes.length idxs := by
  have hlast : Last list.nodes.length (idxs.insertionSort (· ≥ ·)) ↔ Last list.nodes.length idxs := by
    simp only [Last, List.mem_insertionSort, List.length_insertionSort]
  rw [← hlast]
  have hsorted := List.pairwise_insertionSort (· ≥ ·) idxs
  unfold NodeList.deleteMore at hrun
  revert hsorted hrun
  rcases List.eq_nil_or_concat (idxs.insertionSort (· ≥ ·)) with hnil | ⟨first, i, hsnoc⟩
  · rw [hnil]
    intro hrun _
    obtain rfl := Option.some.inj hrun
    exact ⟨fun _ => by simp [Last], fun _ => h.positioned⟩
  · rw [hsnoc, List.concat_eq_append]
    intro hrun hsorted
    exact positioned_foldlM_delete_iff (fun j hj => (List.pairwise_append.mp hsorted).2.2 j hj i (by simp)) h hrun

/-! ## Runs -/

def ListOp.AtEnd (n : Nat) : ListOp T → Prop
  | .append _ => True
  | .update _ _ => True
  | .delete idx => Last n [idx]
  | .deleteMore idxs => Last n idxs

theorem schema_append (list : NodeList T) (datas : List T) : (list.append datas).schema = list.schema := by
  unfold NodeList.append
  induction datas generalizing list with
  | nil => rfl
  | cons data datas ih => exact (ih (list.appendOne data)).trans rfl

theorem schema_step {op : ListOp T} (h : list.step op = some list') :
    list'.schema = list.schema := by
  cases op with
  | append datas => obtain rfl := Option.some.inj h; exact schema_append list datas
  | update idx data =>
    change list.update idx data = some list' at h
    unfold NodeList.update at h
    split at h
    · obtain rfl := Option.some.inj h; rfl
    · cases h
  | delete idx => obtain ⟨-, -, rfl⟩ := delete_eq_some h; rfl
  | deleteMore idxs => exact (foldlM_delete_frame h).2

theorem positioned_step_iff {op : ListOp T} (h : Placed tag list) (hstep : list.step op = some list') :
    Positioned tag list' ↔ op.AtEnd list.nodes.length := by
  cases op with
  | append datas =>
    obtain rfl := Option.some.inj hstep
    exact iff_of_true (h.append datas).positioned trivial
  | update idx data => exact iff_of_true (h.update hstep).positioned trivial
  | delete idx =>
    have hrun : ([] ++ [idx]).foldlM NodeList.delete list = some list' := by
      change (list.delete idx >>= pure) = some list'
      rw [bind_pure]
      exact hstep
    exact positioned_foldlM_delete_iff (by simp) h hrun
  | deleteMore idxs => exact positioned_deleteMore_iff h hstep

theorem NodeList.run_snoc {ops : List (ListOp T)} {op : ListOp T} :
    list.run (ops ++ [op]) = (list.run ops).bind fun list' => list'.step op := by
  simp [NodeList.run, List.foldlM_append]

theorem schema_run (list : NodeList T) {ops : List (ListOp T)} (h : (list.init tag).run ops = some list') :
    list'.schema = some tag := by
  induction ops using List.reverseRecOn generalizing list' with
  | nil => obtain rfl := Option.some.inj h; rfl
  | append_singleton ops op ih =>
    rw [NodeList.run_snoc] at h
    obtain ⟨list₁, hbefore, hstep⟩ := Option.bind_eq_some_iff.mp h
    rw [schema_step hstep, ih hbefore]

/-- An initialised list and any calls that do not panic: the nodes are in their
slots all along exactly when every deletion takes the last ones. -/
theorem list_positions_iff (list : NodeList T) (tag : String) (ops : List (ListOp T))
    (hrun : ((list.init tag).run ops).isSome) :
    (∀ before list', before <+: ops → (list.init tag).run before = some list' → Positioned tag list') ↔
      ∀ before op list', before ++ [op] <+: ops → (list.init tag).run before = some list' →
        op.AtEnd list'.nodes.length := by
  constructor
  · intro hall before op list₁ hprefix hbefore
    obtain ⟨after, rfl⟩ := hprefix
    -- the call itself did not panic either
    have hnext : ∃ list₂, list₁.step op = some list₂ := by
      obtain ⟨final, hfinal⟩ := Option.isSome_iff_exists.mp hrun
      rw [NodeList.run, List.foldlM_append] at hfinal
      obtain ⟨list₂, h₂, -⟩ := Option.bind_eq_some_iff.mp hfinal
      have h₂ : (list.init tag).run (before ++ [op]) = some list₂ := h₂
      rw [NodeList.run_snoc, hbefore] at h₂
      exact ⟨list₂, h₂⟩
    obtain ⟨list₂, hstep⟩ := hnext
    have hplaced : Placed tag list₁ :=
      ⟨schema_run list hbefore, hall before list₁ ⟨op :: after, by simp⟩ hbefore⟩
    have hafter : (list.init tag).run (before ++ [op]) = some list₂ := by rw [NodeList.run_snoc, hbefore]; exact hstep
    exact (positioned_step_iff hplaced hstep).mp (hall (before ++ [op]) list₂ (List.prefix_append _ _) hafter)
  · intro hends before list' hprefix hbefore
    induction before using List.reverseRecOn generalizing list' with
    | nil => obtain rfl := Option.some.inj hbefore; exact positioned_init list tag
    | append_singleton before op ih =>
      rw [NodeList.run_snoc] at hbefore
      obtain ⟨list₁, h₁, hstep⟩ := Option.bind_eq_some_iff.mp hbefore
      have hpos := ih list₁ ((List.prefix_append before [op]).trans hprefix) h₁
      exact (positioned_step_iff ⟨schema_run list h₁, hpos⟩ hstep).mpr (hends before op list₁ hprefix h₁)

theorem list_positions_last_two :
    ∃ list', bagList.run [.deleteMore [1, 2]] = some list' ∧ Positioned "bag" list' := by
  refine ⟨_, rfl, (list_positions_iff ⟨[⟨10, ""⟩, ⟨11, ""⟩, ⟨12, ""⟩], none, []⟩ "bag" [.deleteMore [1, 2]] rfl).mpr ?_
    _ _ (List.prefix_refl _) rfl⟩
  intro before op list' hprefix hbefore
  have hlen := hprefix.length_le
  rw [List.length_append, List.length_singleton, List.length_singleton] at hlen
  obtain rfl : before = [] := List.length_eq_zero_iff.mp (by omega)
  obtain rfl : op = .deleteMore [1, 2] := by simpa using hprefix
  obtain rfl := Option.some.inj hbefore
  intro i hi
  have hi : i = 1 ∨ i = 2 := by simpa using hi
  rcases hi with rfl | rfl <;> decide

theorem delete_first_leaves_path :
    ∃ list', bagList.delete 0 = some list' ∧ list'.nodes[0]?.map (·.path) = some "bag.1" ∧
      (list'.save 0).map (·.reported) = some [("bag.1", 11)] ∧ ¬ Positioned "bag" list' := by
  refine ⟨_, rfl, rfl, rfl, fun h => ?_⟩
  have hpath := (h 0 _ rfl).1
  exact absurd hpath (by decide)

end GameServer.Md
