import GameServer.Go
import Mathlib.Data.List.Sort
import Mathlib.Data.String.Basic

/-!
# Dirty tracking of document models

The package `md`: a document as a tree of `Node`s, `Map`s and `List`s, each node
with the path it was initialised with, and the root's table of what has to be
written. A position is the list of the bson names, keys and indices that lead to
it. What the table refers to is the object, wherever it is by then.
-/

namespace GameServer.Md

/-! ## Paths -/

/-- A bson name, an index, or a key that is printed as bson writes it. A dot would
split it in two. -/
structure Key where
  text : String
  dotFree : '.' ∉ text.toList
  deriving DecidableEq

abbrev Path := List Key

def Path.text (p : Path) : List Char := ['.'].intercalate (p.map (·.text.toList))

theorem dot_not_mem_repr (i : Nat) : '.' ∉ (toString i).toList := by
  intro h
  exact absurd (isDigit_of_mem_repr h) (by decide)

def index (i : Nat) : Key := ⟨toString i, dot_not_mem_repr i⟩

def Key.ofChars? (cs : List Char) : Option Key :=
  if h : '.' ∈ cs then none else some ⟨String.ofList cs, by rwa [String.toList_ofList]⟩

def Path.ofText (t : List Char) : Path := (t.splitOn '.').filterMap Key.ofChars?

/-! ## Trees and documents -/

variable {F : Type}

/-- What stands at a position. A node has the path under which it reports itself
to the root, and the plain fields of its data. -/
inductive Head (F : Type)
  | node (name : Path) (fields : F)
  | map
  | list (len : Nat)

abbrev Tree (F : Type) := Path → Option (Head F)

inductive Part (F : Type)
  | document (fields : Option F)
  | array
  deriving DecidableEq

abbrev Document (F : Type) := Path → Option (Part F)

def Head.part : Head F → Part F
  | .node _ fields => .document (some fields)
  | .map => .document none
  | .list _ => .array

def marshal (t : Tree F) : Document F := fun q => (t q).map Head.part

def Tree.at (t : Tree F) (p : Path) : Tree F := fun r => t (p ++ r)

def Tree.graft (t : Tree F) (p : Path) (c : Tree F) : Tree F := fun q => if p <+: q then c (q.drop p.length) else t q

def Tree.setHead (t : Tree F) (p : Path) (h : Head F) : Tree F := fun q => if q = p then some h else t q

/-- The value of one `$set`; missing documents on the way are made. -/
def Document.set (d : Document F) (p : Path) (v : Document F) : Document F := fun q =>
  if p <+: q then v (q.drop p.length)
  else if q <+: p ∧ (d q).isNone then some (.document none)
  else d q

def Document.setAll (d : Document F) (update : List (List Char × Document F)) : Document F :=
  update.foldl (fun d x => d.set (Path.ofText x.1) x.2) d

def Tree.Listed (t : Tree F) : Prop := ∀ p n, t p = some (.list n) → ∀ i, (t (p ++ [index i])).isSome ↔ i < n

structure Content (F : Type) where
  tree : Tree F
  root : ∃ name fields, tree [] = some (.node name fields)
  closed : ∀ p k, (tree (p ++ [k])).isSome → (tree p).isSome
  listed : tree.Listed

def Head.named (name : Path) : Head F → Head F
  | .node _ fields => .node name fields
  | h => h

def Content.init (v : Content F) (path : Path) : Tree F := fun r => (v.tree r).map (Head.named (path ++ r))

/-! ## The root -/

/-- A node's data: where it is in the tree, or what it was when it was taken out. -/
inductive Data (F : Type)
  | here (pos : Path)
  | gone (content : Tree F)

def Data.content (t : Tree F) : Data F → Tree F
  | .here pos => t.at pos
  | .gone content => content

/-- The objects in the positions `q` with `new q = some q'` are at `q'` from now
on, the others are taken out. -/
def Data.move (t : Tree F) (new : Path → Option Path) : Data F → Data F
  | .here pos =>
    match new pos with
    | some pos' => .here pos'
    | none => .gone (t.at pos)
  | .gone content => .gone content

structure Model (F : Type) where
  tree : Tree F
  dirty : List (Path × Data F)

def Path.under (path p : Path) : Bool := (p.text ++ ['.']).isPrefixOf path.text

def addDirty (path : Path) (data : Data F) (dirty : List (Path × Data F)) : List (Path × Data F) :=
  if dirty.any fun x => path.under x.1 then dirty
  else (path, data) :: dirty.filter fun x => !(x.1.text == path.text || x.1.under path)

def Model.dirtyData (m : Model F) : List (List Char × Document F) :=
  m.dirty.map fun x => (x.1.text, marshal (x.2.content m.tree))

/-- The object at `pos` reports itself under `path`, with `c` for its subtree; the
objects that `replaced` holds of have been replaced by others. -/
def Model.write (m : Model F) (pos path : Path) (c : Tree F) (replaced : Path → Bool) : Model F where
  tree := m.tree.graft pos c
  dirty := addDirty path (.here pos) (m.dirty.map fun x => (x.1, x.2.move m.tree fun q => if replaced q then none else some q))

/-- Objects move or are taken out; `old` says where what is at a position comes
from, `new` is its inverse. -/
def Model.rearrange (m : Model F) (old new : Path → Option Path) : Model F where
  tree := fun q => (old q).bind m.tree
  dirty := m.dirty.map fun x => (x.1, x.2.move m.tree new)

/-! ## Operations

The container with name `tag` in the data of the node at `h`. A call that panics
is `none`. -/

def Model.put (m : Model F) (h : Path) (tag k : Key) (v : Content F) : Option (Model F) :=
  match m.tree h with
  | some (.node name _) =>
    some (m.write (h ++ [tag, k]) (name ++ [tag, k]) (v.init (name ++ [tag, k])) fun q => (h ++ [tag, k]).isPrefixOf q)
  | _ => none

def Model.set (m : Model F) (h : Path) (tag k : Key) (v : Content F) : Option (Model F) :=
  match m.tree (h ++ [tag]) with
  | some .map => m.put h tag k v
  | _ => none

def without (p : Path → Bool) (q : Path) : Option Path := if p q then none else some q

def Model.remove (m : Model F) (h : Path) (tag k : Key) : Option (Model F) :=
  match m.tree (h ++ [tag]) with
  | some .map =>
    some (m.rearrange (without (h ++ [tag, k]).isPrefixOf) (without (h ++ [tag, k]).isPrefixOf))
  | _ => none

def inside (p q : Path) : Bool := p.isPrefixOf q && q != p

def Model.clear (m : Model F) (h : Path) (tag : Key) : Option (Model F) :=
  match m.tree (h ++ [tag]) with
  | some .map => some (m.rearrange (without (inside (h ++ [tag]))) (without (inside (h ++ [tag]))))
  | _ => none

def Model.appendOne (m : Model F) (h : Path) (tag : Key) (v : Content F) : Option (Model F) :=
  match m.tree (h ++ [tag]) with
  | some (.list n) =>
    (m.put h tag (index n) v).map fun m => { m with tree := m.tree.setHead (h ++ [tag]) (.list (n + 1)) }
  | _ => none

def Model.append (m : Model F) (h : Path) (tag : Key) (vs : List (Content F)) : Option (Model F) :=
  vs.foldlM (fun m v => m.appendOne h tag v) m

def Model.update (m : Model F) (h : Path) (tag : Key) (i : Nat) (v : Content F) : Option (Model F) :=
  match m.tree (h ++ [tag]) with
  | some (.list n) => if i < n then m.put h tag (index i) v else none
  | _ => none

def item? (n : Nat) (k : Key) : Option Nat := (List.range n).find? fun j => index j = k

def itemBefore (n i : Nat) (k : Key) : Option Key :=
  match item? n k with
  | none => some k
  | some j => if j < i then some k else if j + 1 < n then some (index (j + 1)) else none

def itemAfter (n i : Nat) (k : Key) : Option Key :=
  match item? n k with
  | none => some k
  | some j => if j < i then some k else if j = i then none else some (index (j - 1))

def shift (p : Path) (element : Key → Option Key) (q : Path) : Option Path :=
  if inside p q then
    match q.drop p.length with
    | [] => some q
    | k :: r => (element k).map fun k' => p ++ k' :: r
  else some q

def Model.deleteAt (m : Model F) (h : Path) (tag : Key) (i : Nat) : Option (Model F) :=
  match m.tree (h ++ [tag]) with
  | some (.list n) =>
    if i < n then
      let m := m.rearrange (shift (h ++ [tag]) (itemBefore n i)) (shift (h ++ [tag]) (itemAfter n i))
      some { m with tree := m.tree.setHead (h ++ [tag]) (.list (n - 1)) }
    else none
  | _ => none

def Model.deleteMore (m : Model F) (h : Path) (tag : Key) (is : List Nat) : Option (Model F) :=
  (is.insertionSort (· ≥ ·)).foldlM (fun m i => m.deleteAt h tag i) m

def Model.save (m : Model F) (p : Path) (fields : F) : Option (Model F) :=
  match m.tree p with
  | some (.node name _) =>
    -- an empty path makes the root panic
    if name.text = [] then none
    else some (m.write p name ((m.tree.setHead p (.node name fields)).at p) fun _ => false)
  | _ => none

def Model.replace (m : Model F) (p : Path) (v : Content F) : Option (Model F) :=
  match m.tree p with
  | some (.node name _) =>
    if name.text = [] then none else some (m.write p name (v.init name) (inside p))
  | _ => none

inductive Op (F : Type)
  | set (h : Path) (tag k : Key) (v : Content F)
  | delete (h : Path) (tag k : Key)
  | clear (h : Path) (tag : Key)
  | append (h : Path) (tag : Key) (vs : List (Content F))
  | update (h : Path) (tag : Key) (i : Nat) (v : Content F)
  | deleteAt (h : Path) (tag : Key) (i : Nat)
  | deleteMore (h : Path) (tag : Key) (is : List Nat)
  -- of a node in the tree; one that has been taken out would report its old data
  | save (p : Path) (fields : F)
  | replace (p : Path) (v : Content F)

def Model.step (m : Model F) : Op F → Option (Model F)
  | .set h tag k v => m.set h tag k v
  | .delete h tag k => m.remove h tag k
  | .clear h tag => m.clear h tag
  | .append h tag vs => m.append h tag vs
  | .update h tag i v => m.update h tag i v
  | .deleteAt h tag i => m.deleteAt h tag i
  | .deleteMore h tag is => m.deleteMore h tag is
  | .save p fields => m.save p fields
  | .replace p v => m.replace p v

def Model.run (m : Model F) (ops : List (Op F)) : Option (Model F) := ops.foldlM Model.step m

end GameServer.Md
