import GameServer.ListNodes

/-!
# The schema of a model and its initialisation

`ParseSchema` reads the Node, List and Map fields of a struct type, and those of
the data they hold, into a tree of schemas; `Init` walks that tree over a value
and sets the parent and the path of every node. Types are finite trees: on a
type that holds nodes of itself the parser does not return. A node is told from
others by its address, and `Init` is the list of the assignments it makes; it
takes the entries of a schema in any order, so theorems are about every
permutation of the list.
-/

namespace GameServer.Md.Schema

/-! ## Types -/

inductive KeyKind
  | string
  | integer
  | other
  deriving DecidableEq

inductive Container
  | node
  | list
  | map (key : KeyKind)
  deriving DecidableEq

/-- The type argument `T`: a pointer to a struct; a slice, array, map or channel
of structs, which has an `Elem` as well; or a type without. -/
inductive DataKind
  | pointer
  | element
  | other
  deriving DecidableEq

/-- The fields of a struct type. `other` is a field that is no node; a root
field comes with whether it is exported. -/
inductive Struct
  | nil
  | other (root : Option Bool) (rest : Struct)
  | field (name : String) (exported skip : Bool) (tag : String) (container : Container) (kind : DataKind)
      (data rest : Struct)

def Struct.rootField : Struct → Option Bool
  | .nil => none
  | .other (some exported) _ => some exported
  | .other none rest => rest.rootField
  | .field _ _ _ _ _ _ _ rest => rest.rootField

/-! ## The parser -/

inductive NodeSchema
  | nil
  | entry (tag : String) (index : Nat) (container : Container) (children rest : NodeSchema)

/-- An assignment to the map from tags to schemas, whose order means nothing. -/
def NodeSchema.put : NodeSchema → String → Nat → Container → NodeSchema → NodeSchema
  | .nil, tag, index, container, children => .entry tag index container children .nil
  | .entry tag' index' container' children' rest, tag, index, container, children =>
    if tag' = tag then rest.put tag index container children
    else .entry tag' index' container' children' (rest.put tag index container children)

structure RootSchema where
  rootExported : Bool
  nodes : NodeSchema

inductive Fault
  | error (e : GoErr)
  | panic

def Fault.wrap (w : GoErr → GoErr) : Fault → Fault
  | .error e => .error (w e)
  | .panic => .panic

def checkMapKey : Container → Except GoErr Unit
  | .map .other => .error (.new "map key must be int/uint or string")
  | _ => .ok ()

def childFailed (name : String) : GoErr → GoErr := .wrap ("parse child failed: " ++ name)

def parseFields (failed : String → GoErr → GoErr) (acc : NodeSchema) (index : Nat) :
    Struct → Except Fault NodeSchema
  | .nil => .ok acc
  | .other _ rest => parseFields failed acc (index + 1) rest
  | .field name exported skip tag container kind data rest =>
    if exported && !skip then
      match checkMapKey container with
      | .error e => .error (.error (failed name (.wrap "parse mode node schema failed" e)))
      | .ok () =>
        -- `Elem` or `NumField` panics
        if kind = .other then .error .panic
        else
          match parseFields childFailed .nil 0 data with
          | .error fault => .error (fault.wrap fun e => failed name (.wrap "parse mode node schema failed" e))
          | .ok children => parseFields failed (acc.put tag index container children) (index + 1) rest
    else parseFields failed acc (index + 1) rest

def parseSchema (S : Struct) : Except Fault RootSchema :=
  match S.rootField with
  | none => .error (.error (.wrap "parse model schema failed" (.new "no model root field")))
  | some rootExported =>
    match parseFields (fun _ e => e) .nil 0 S with
    | .error fault => .error (fault.wrap (.wrap "parse model schema failed"))
    | .ok nodes => .ok ⟨rootExported, nodes⟩

/-! ## Values -/

structure Noded (V : Type) where
  address : Nat
  data : Option V

/-- A key of a map as `fmt.Sprint` prints it and as bson writes it. -/
structure MapKey where
  shown : String
  stored : String

def Held (N : Type) : Container → Type
  | .node => Option N
  | .list => Option (List (Option N))
  | .map _ => Option (List (MapKey × Option N))

/-- A node of a field, with the path that `Init` gives it and the one it is
stored under. -/
structure Slot (N : Type) where
  path : String
  stored : String
  node : Option N

def slots {N : Type} (tag : String) : (container : Container) → Held N container → List (Slot N)
  | .node, node => [⟨tag, tag, node⟩]
  | .list, nodes => (Option.getD nodes []).mapIdx fun i node => ⟨itemPath tag i, itemPath tag i, node⟩
  | .map _, entries =>
    (Option.getD entries []).map fun e => ⟨tag ++ "." ++ e.1.shown, tag ++ "." ++ e.1.stored, e.2⟩

/-- The values of a struct type. What a slice or a channel of structs holds is
never looked at. -/
def Value : Struct → Type
  | .nil => Unit
  | .other _ rest => Value rest
  | .field _ _ _ _ container _ data rest => Held (Noded (Value data)) container × Value rest

structure FieldValue where
  container : Container
  kind : DataKind
  data : Struct
  held : Held (Noded (Value data)) container

def fieldAt : (S : Struct) → Value S → Nat → Option FieldValue
  | .nil, _, _ => none
  | .other _ _, _, 0 => none
  | .other _ rest, v, index + 1 => fieldAt rest v index
  | .field _ _ _ _ container kind data _, v, 0 => some ⟨container, kind, data, v.1⟩
  | .field _ _ _ _ _ _ _ rest, v, index + 1 => fieldAt rest v.2 index

/-! ## Init -/

inductive Parent
  | root
  | node (address : Nat)
  deriving DecidableEq

structure Link where
  address : Nat
  parent : Parent
  path : String
  deriving DecidableEq

def andThen (first second : Option (List Link)) : Option (List Link) :=
  match first, second with
  | some here, some others => some (here ++ others)
  | _, _ => none

def gather {β : Type} (f : β → Option (List Link)) : List β → Option (List Link)
  | [] => some []
  | b :: bs => andThen (f b) (gather f bs)

/-- `none` is a panic: `init` on a nil node, `Set` on data that cannot be set,
`Elem` of data that is no pointer. -/
def initChild {V : Type} (parent : Parent) (kind : DataKind) (path : String) (node : Option (Noded V))
    (below : Parent → V → Option (List Link)) : Option (List Link) :=
  match node with
  | none => none
  | some n =>
    match kind, n.data with
    | .pointer, some v => (below (.node n.address) v).map (⟨n.address, parent, path⟩ :: ·)
    | _, _ => none

def setupNode (parent : Parent) (tag : String) (container : Container) (f : FieldValue)
    (below : Parent → Value f.data → Option (List Link)) : Option (List Link) :=
  if f.container ≠ container then none
  -- `parent.(Noder)` panics: the root is no `Noder`
  else if container ≠ .node ∧ parent = .root then none
  else gather (fun slot => initChild parent f.kind slot.path slot.node below) (slots tag f.container f.held)

def initFields : NodeSchema → Parent → (S : Struct) → Value S → Option (List Link)
  | .nil, _, _, _ => some []
  | .entry tag index container children rest, parent, S, v =>
    match fieldAt S v index with
    | none => none
    | some f =>
      andThen (setupNode parent tag container f fun p u => initFields children p f.data u)
        (initFields rest parent S v)

def init (schema : RootSchema) (S : Struct) (v : Value S) : Option (List Link) :=
  if schema.rootExported then initFields schema.nodes .root S v else none

abbrev Heap := Nat → Option (Parent × String)

def assign (heap : Heap) (links : List Link) : Heap :=
  links.foldl (fun h l => Function.update h l.address (some (l.parent, l.path))) heap

/-! ## What the paths should be -/

inductive Spells (heap : Heap) : Nat → String → Prop
  | top {a : Nat} {path : String} (h : heap a = some (.root, path)) : Spells heap a path
  | inner {a p : Nat} {path above : String} (h : heap a = some (.node p, path)) (hp : Spells heap p above) :
      Spells heap a (above ++ "." ++ path)

def under (above : Option String) (path : String) : String :=
  match above with
  | none => path
  | some a => a ++ "." ++ path

def reachNode {V : Type} (kind : DataKind) (path : String) (node : Option (Noded V)) (below : V → List (Nat × String)) :
    List (Nat × String) :=
  match node with
  | none => []
  | some n =>
    (n.address, path) ::
      match kind, n.data with
      | .pointer, some u => below u
      | _, _ => []

def reach : (S : Struct) → Value S → Option String → List (Nat × String)
  | .nil, _, _ => []
  | .other _ rest, v, above => reach rest v above
  | .field _ exported skip tag container kind data rest, v, above =>
    (if exported && !skip then
      (slots tag container v.1).flatMap fun slot =>
        reachNode kind (under above slot.stored) slot.node fun u => reach data u (some (under above slot.stored))
    else []) ++ reach rest v.2 above

/-! ## Conditions -/

def Struct.tags : Struct → List String
  | .nil => []
  | .other _ rest => rest.tags
  | .field _ exported skip tag _ _ _ rest => if exported && !skip then tag :: rest.tags else rest.tags

/-- The schema has an entry for the field: of fields with one tag the last. -/
def parsed (exported skip : Bool) (tag : String) (rest : Struct) : Bool := exported && !skip && tag ∉ rest.tags

def Struct.Bare : Struct → Prop
  | .nil => True
  | .other _ rest => rest.Bare
  | .field _ exported skip tag container _ _ rest =>
    (parsed exported skip tag rest = true → container = .node) ∧ rest.Bare

def Each (P : (V : Type) → DataKind → List (Slot (Noded V)) → Prop) : (S : Struct) → Value S → Prop
  | .nil, _ => True
  | .other _ rest, v => Each P rest v
  | .field _ exported skip tag container kind data rest, v =>
    (parsed exported skip tag rest = true → P _ kind (slots tag container v.1) ∧
      (kind = .pointer → ∀ slot ∈ slots tag container v.1, ∀ n u, slot.node = some n → n.data = some u →
        Each P data u)) ∧
    Each P rest v.2

abbrev AllSet : (S : Struct) → Value S → Prop :=
  Each fun _ _ slots => ∀ slot ∈ slots, ∃ n u, slot.node = some n ∧ n.data = some u

abbrev AllPointers : (S : Struct) → Value S → Prop := Each fun _ kind slots => slots ≠ [] → kind = .pointer

/-- The nodes that `Init` comes to, with the path that leads there. -/
def given : (S : Struct) → Value S → Option String → List (Nat × String)
  | .nil, _, _ => []
  | .other _ rest, v, above => given rest v above
  | .field _ exported skip tag container kind data rest, v, above =>
    (if parsed exported skip tag rest then
      (slots tag container v.1).flatMap fun slot =>
        reachNode kind (under above slot.path) slot.node fun u => given data u (some (under above slot.path))
    else []) ++ given rest v.2 above

/-- `Init` comes to every node, and only by the path it is stored under. -/
def PathsAgree (S : Struct) (v : Value S) : Prop :=
  ∀ x ∈ reach S v none, (∃ y ∈ given S v none, y.1 = x.1) ∧ ∀ y ∈ given S v none, y.1 = x.1 → y.2 = x.2

instance (S : Struct) (v : Value S) : Decidable (PathsAgree S v) := inferInstanceAs (Decidable (∀ _ ∈ _, _))

/-! ## Init along the type -/

def initStruct (parent : Parent) : (S : Struct) → Value S → Option (List Link)
  | .nil, _ => some []
  | .other _ rest, v => initStruct parent rest v
  | .field _ exported skip tag container kind data rest, v =>
    if parsed exported skip tag rest then
      andThen (setupNode parent tag container ⟨container, kind, data, v.1⟩ fun p u => initStruct p data u)
        (initStruct parent rest v.2)
    else initStruct parent rest v.2

@[simp] theorem andThen_nil (x : Option (List Link)) : andThen x (some []) = x := by
  cases x <;> simp [andThen]

@[simp] theorem nil_andThen (x : Option (List Link)) : andThen (some []) x = x := by
  cases x <;> simp [andThen]

theorem andThen_assoc (x y z : Option (List Link)) : andThen (andThen x y) z = andThen x (andThen y z) := by
  cases x <;> cases y <;> cases z <;> simp [andThen]

variable {links : List Link} {p : Parent}

theorem andThen_eq_some {x y : Option (List Link)} :
    andThen x y = some links ↔ ∃ here others, x = some here ∧ y = some others ∧ links = here ++ others := by
  cases x <;> cases y <;> simp [andThen, eq_comm]

theorem isSome_andThen {x y : Option (List Link)} : (andThen x y).isSome ↔ x.isSome ∧ y.isSome := by
  cases x <;> cases y <;> simp [andThen]

def NodeSchema.without (tags : List String) : NodeSchema → NodeSchema
  | .nil => .nil
  | .entry tag index container children rest =>
    if tag ∈ tags then rest.without tags else .entry tag index container children (rest.without tags)

theorem without_nil (schema : NodeSchema) : schema.without [] = schema := by
  induction schema with
  | nil => rfl
  | entry tag index container children rest _ ih => simp [NodeSchema.without, ih]

theorem initFields_entry (tag : String) (index : Nat) (container : Container) (children rest : NodeSchema)
    (p : Parent) (S : Struct) (v : Value S) :
    initFields (.entry tag index container children rest) p S v =
      andThen (initFields (.entry tag index container children .nil) p S v) (initFields rest p S v) := by
  cases h : fieldAt S v index with
  | none => simp [initFields, h, andThen]
  | some f => simp [initFields, h]

theorem initFields_put (tags : List String) (tag : String) (schema : NodeSchema) (index : Nat) (container : Container)
    (children : NodeSchema) (p : Parent) (S : Struct) (v : Value S) :
    initFields ((schema.put tag index container children).without tags) p S v =
      andThen (initFields (schema.without (tag :: tags)) p S v)
        (if tag ∈ tags then some [] else initFields (.entry tag index container children .nil) p S v) := by
  induction schema with
  | nil => by_cases h : tag ∈ tags <;> simp [NodeSchema.put, NodeSchema.without, initFields, h]
  | entry tag' index' container' children' rest _ ih =>
    rw [NodeSchema.put]
    by_cases hsame : tag' = tag
    · rw [if_pos hsame, ih, hsame, NodeSchema.without, if_pos List.mem_cons_self]
    rw [if_neg hsame, NodeSchema.without, NodeSchema.without]
    by_cases hlater : tag' ∈ tags
    · rw [if_pos hlater, if_pos (List.mem_cons_of_mem _ hlater), ih]
    · have hkept : tag' ∉ tag :: tags := by simp [hsame, hlater]
      rw [if_neg hlater, if_neg hkept, initFields_entry, ih, initFields_entry _ _ _ _ (rest.without _), andThen_assoc]

/-- What the parser has collected so far counts where no later field has the tag. -/
theorem initFields_parse {failed : String → GoErr → GoErr} {S S₀ : Struct} {acc schema : NodeSchema} {index : Nat}
    (h : parseFields failed acc index S = .ok schema) (v : Value S) (v₀ : Value S₀)
    (hfield : ∀ j, fieldAt S₀ v₀ (index + j) = fieldAt S v j) (p : Parent) :
    initFields schema p S₀ v₀ = andThen (initFields (acc.without S.tags) p S₀ v₀) (initStruct p S v) := by
  induction S generalizing failed S₀ acc schema index p with
  | nil =>
    cases h
    simp [initStruct, Struct.tags, without_nil]
  | other root rest ih =>
    have hrest : ∀ j, fieldAt S₀ v₀ (index + 1 + j) = fieldAt rest v j := fun j => by
      rw [Nat.add_assoc, Nat.add_comm 1 j, hfield (j + 1)]
      rfl
    exact ih h v v₀ hrest p
  | field name exported skip tag container kind data rest ihdata ihrest =>
    have hrest : ∀ j, fieldAt S₀ v₀ (index + 1 + j) = fieldAt rest v.2 j := fun j => by
      rw [Nat.add_assoc, Nat.add_comm 1 j, hfield (j + 1)]
      rfl
    unfold parseFields at h
    unfold initStruct Struct.tags parsed
    by_cases hlisted : (exported && !skip) = true
    · rw [if_pos hlisted] at h ⊢
      split at h
      · cases h
      split at h
      · cases h
      split at h
      · cases h
      next children hchildren =>
        -- below a node the children stand for the whole struct of its data
        have hbelow : ∀ p u, initFields children p data u = initStruct p data u := fun p u => by
          rw [ihdata hchildren u u (fun j => by rw [Nat.zero_add]) p]
          simp [initFields, NodeSchema.without]
        have hhere : fieldAt S₀ v₀ index = some ⟨container, kind, data, v.1⟩ := hfield 0
        rw [ihrest h v.2 v₀ hrest p, initFields_put, andThen_assoc]
        congr 1
        by_cases hlater : tag ∈ rest.tags
        · simp [hlater]
        · simp only [initFields, hhere, andThen_nil, hbelow, hlater, hlisted, if_false, not_false_eq_true, decide_true,
            Bool.and_self, if_true]
    · rw [if_neg hlisted] at h ⊢
      rw [ihrest h v.2 v₀ hrest p]
      simp [hlisted]

theorem init_parse {S : Struct} {schema : RootSchema} (h : parseSchema S = .ok schema) (v : Value S) :
    init schema S v = if schema.rootExported then initStruct .root S v else none := by
  unfold parseSchema at h
  split at h
  · cases h
  split at h
  · cases h
  next nodes hnodes =>
    cases h
    have heq := initFields_parse hnodes v v (fun j => by rw [Nat.zero_add]) .root
    simp only [init, heq, NodeSchema.without, initFields, nil_andThen]

/-! ## When Init returns -/

theorem isSome_gather {β : Type} {f : β → Option (List Link)} {bs : List β} :
    (gather f bs).isSome ↔ ∀ b ∈ bs, (f b).isSome := by
  induction bs with
  | nil => simp [gather]
  | cons b bs ih => simp [gather, isSome_andThen, ih]

theorem isSome_initChild {V : Type} {kind : DataKind} {path : String} {node : Option (Noded V)}
    {below : Parent → V → Option (List Link)} {n : Noded V} {u : V} (hn : node = some n) (hu : n.data = some u) :
    (initChild p kind path node below).isSome ↔ kind = .pointer ∧ (below (.node n.address) u).isSome := by
  subst hn
  cases kind <;> simp [initChild, hu]

theorem isSome_setupNode (p : Parent) (tag : String) (f : FieldValue) (below : Parent → Value f.data → Option (List Link))
    (hset : ∀ slot ∈ slots tag f.container f.held, ∃ n u, slot.node = some n ∧ n.data = some u) :
    (setupNode p tag f.container f below).isSome ↔ (p = .root → f.container = .node) ∧
      (slots tag f.container f.held ≠ [] → f.kind = .pointer) ∧
      (f.kind = .pointer → ∀ slot ∈ slots tag f.container f.held, ∀ n u, slot.node = some n → n.data = some u →
        (below (.node n.address) u).isSome) := by
  rw [setupNode, if_neg (not_not.2 rfl)]
  split
  next hroot => simp [hroot.1, hroot.2]
  next hroot =>
    have hplace : p = .root → f.container = .node := fun hp => not_not.1 fun hc => hroot ⟨hc, hp⟩
    rw [isSome_gather]
    constructor
    · intro h
      have hchild : ∀ slot ∈ slots tag f.container f.held, ∀ n u, slot.node = some n → n.data = some u →
          f.kind = .pointer ∧ (below (.node n.address) u).isSome :=
        fun slot hs n u hn hu => (isSome_initChild hn hu).1 (h slot hs)
      refine ⟨hplace, fun hne => ?_, fun _ slot hs n u hn hu => (hchild slot hs n u hn hu).2⟩
      obtain ⟨slot, hs⟩ := List.exists_mem_of_ne_nil _ hne
      obtain ⟨n, u, hn, hu⟩ := hset slot hs
      exact (hchild slot hs n u hn hu).1
    · rintro ⟨-, hkind, hbelow⟩ slot hs
      obtain ⟨n, u, hn, hu⟩ := hset slot hs
      have hpointer := hkind (List.ne_nil_of_mem hs)
      exact (isSome_initChild hn hu).2 ⟨hpointer, hbelow hpointer slot hs n u hn hu⟩

theorem isSome_initStruct {S : Struct} {v : Value S} (hset : AllSet S v) (p : Parent) :
    (initStruct p S v).isSome ↔ (p = .root → S.Bare) ∧ AllPointers S v := by
  induction S generalizing p with
  | nil => simp [initStruct, Struct.Bare, AllPointers, Each]
  | other root rest ih => exact ih hset p
  | field name exported skip tag container kind data rest ihdata ihrest =>
    unfold initStruct Struct.Bare AllPointers Each
    by_cases hlisted : parsed exported skip tag rest = true
    · obtain ⟨hhere, hdata⟩ := hset.1 hlisted
      have hbelow : (kind = .pointer → ∀ slot ∈ slots tag container v.1, ∀ n u, slot.node = some n →
            n.data = some u → (initStruct (.node n.address) data u).isSome) ↔
          (kind = .pointer → ∀ slot ∈ slots tag container v.1, ∀ n u, slot.node = some n → n.data = some u →
            AllPointers data u) :=
        forall_congr' fun hk => forall₂_congr fun slot hs => forall₂_congr fun n u => forall₂_congr fun hn hu =>
          (ihdata (hdata hk slot hs n u hn hu) _).trans (by simp)
      have hfield := (isSome_setupNode p tag ⟨container, kind, data, v.1⟩ (fun p u => initStruct p data u) hhere).trans
        (and_congr_right' (and_congr_right' hbelow))
      rw [if_pos hlisted, isSome_andThen]
      refine (and_congr hfield (ihrest hset.2 p)).trans ⟨?_, ?_⟩
      · rintro ⟨⟨hplace, hkind, hinner⟩, hbare, hpointers⟩
        exact ⟨fun hp => ⟨fun _ => hplace hp, hbare hp⟩, fun _ => ⟨hkind, hinner⟩, hpointers⟩
      · rintro ⟨hplace, hinner, hpointers⟩
        obtain ⟨hkind, hinner⟩ := hinner hlisted
        exact ⟨⟨fun hp => (hplace hp).1 hlisted, hkind, hinner⟩, fun hp => (hplace hp).2, hpointers⟩
    · rw [if_neg hlisted, ihrest hset.2 p]
      simp [hlisted]

/-! ## The paths -/

theorem assign_of_notMem {heap : Heap} {a : Nat} (h : a ∉ links.map (·.address)) :
    assign heap links a = heap a := by
  induction links generalizing heap with
  | nil => rfl
  | cons l links ih =>
    obtain ⟨hne, hrest⟩ := not_or.1 (List.mem_cons.not.1 h)
    exact (ih hrest).trans (Function.update_of_ne hne _ _)

theorem assign_last (heap : Heap) (links : List Link) (l : Link) :
    assign heap (links ++ [l]) l.address = some (l.parent, l.path) := by
  rw [assign, List.foldl_append]
  exact Function.update_self _ _ _

theorem exists_assigned (heap : Heap) {a : Nat} (h : a ∈ links.map (·.address)) :
    ∃ l ∈ links, l.address = a ∧ assign heap links a = some (l.parent, l.path) := by
  induction links using List.reverseRecOn with
  | nil => exact absurd h List.not_mem_nil
  | append_singleton links l ih =>
    by_cases hl : l.address = a
    · exact ⟨l, by simp, hl, hl ▸ assign_last heap links l⟩
    · have hmem : a ∈ links.map (·.address) := by simpa [Ne.symm hl] using h
      obtain ⟨l', hl', ha, hassign⟩ := ih hmem
      refine ⟨l', List.mem_append_left _ hl', ha, ?_⟩
      rw [assign, List.foldl_append]
      exact (Function.update_of_ne (Ne.symm hl) _ _).trans hassign

theorem Spells.ne_none {heap : Heap} {a : Nat} {path : String} (h : Spells heap a path) : heap a ≠ none := by
  cases h <;> simp_all

theorem Spells.unique {heap : Heap} {a : Nat} {path path' : String} (h : Spells heap a path)
    (h' : Spells heap a path') : path = path' := by
  induction h generalizing path' with
  | top h => cases h' <;> simp_all
  | inner h _ ih =>
    cases h' with
    | top h' => simp_all
    | inner h' hp' =>
      obtain ⟨rfl, rfl⟩ : _ ∧ _ := by simpa using h.symm.trans h'
      rw [ih hp']

/-- The link `l` gives the node `y` its path, from the parent `p` or from another
of the nodes. -/
def Comes (p : Parent) (above : Option String) (nodes : List (Nat × String)) (l : Link) (y : Nat × String) : Prop :=
  l.address = y.1 ∧ (l.parent = p ∧ y.2 = under above l.path ∨
    ∃ x ∈ nodes, l.parent = .node x.1 ∧ y.2 = x.2 ++ "." ++ l.path)

structure Gives (links : List Link) (p : Parent) (above : Option String) (nodes : List (Nat × String)) : Prop where
  node : ∀ l ∈ links, ∃ y ∈ nodes, Comes p above nodes l y
  link : ∀ y ∈ nodes, ∃ l ∈ links, Comes p above nodes l y

variable {above : Option String} {nodes nodes' : List (Nat × String)}

theorem Comes.mono {l : Link} {y : Nat × String} (h : Comes p above nodes l y) (hsub : nodes ⊆ nodes') :
    Comes p above nodes' l y := by
  obtain ⟨ha, hp | ⟨x, hx, hpath⟩⟩ := h
  · exact ⟨ha, .inl hp⟩
  · exact ⟨ha, .inr ⟨x, hsub hx, hpath⟩⟩

theorem Gives.append {links' : List Link} (h : Gives links p above nodes) (h' : Gives links' p above nodes') :
    Gives (links ++ links') p above (nodes ++ nodes') := by
  have hleft := List.subset_append_left nodes nodes'
  have hright := List.subset_append_right nodes nodes'
  refine ⟨fun l hl => ?_, fun y hy => ?_⟩
  · rcases List.mem_append.1 hl with hl | hl
    · obtain ⟨y, hy, hcomes⟩ := h.node l hl
      exact ⟨y, hleft hy, hcomes.mono hleft⟩
    · obtain ⟨y, hy, hcomes⟩ := h'.node l hl
      exact ⟨y, hright hy, hcomes.mono hright⟩
  · rcases List.mem_append.1 hy with hy | hy
    · obtain ⟨l, hl, hcomes⟩ := h.link y hy
      exact ⟨l, List.mem_append_left _ hl, hcomes.mono hleft⟩
    · obtain ⟨l, hl, hcomes⟩ := h'.link y hy
      exact ⟨l, List.mem_append_right _ hl, hcomes.mono hright⟩

theorem gives_nil (p : Parent) (above : Option String) : Gives [] p above [] := ⟨by simp, by simp⟩

theorem gives_gather {β : Type} {f : β → Option (List Link)} {g : β → List (Nat × String)}
    {bs : List β} (h : ∀ b ∈ bs, ∀ links, f b = some links → Gives links p above (g b))
    (hgather : gather f bs = some links) : Gives links p above (bs.flatMap g) := by
  induction bs generalizing links with
  | nil =>
    cases hgather
    exact gives_nil p above
  | cons b bs ih =>
    obtain ⟨here, others, hhere, hothers, rfl⟩ := andThen_eq_some.1 hgather
    exact (h b List.mem_cons_self here hhere).append (ih (fun b hb => h b (List.mem_cons_of_mem _ hb)) hothers)

theorem gives_initChild {V : Type} {kind : DataKind} {path : String} {node : Option (Noded V)}
    {below : Parent → V → Option (List Link)} {inner : V → List (Nat × String)}
    (h : initChild p kind path node below = some links)
    (hbelow : ∀ n u links, below (.node n) u = some links →
      Gives links (.node n) (some (under above path)) (inner u)) :
    Gives links p above (reachNode kind (under above path) node inner) := by
  unfold initChild at h
  split at h
  · cases h
  next n =>
    split at h
    next u hu =>
      obtain ⟨others, hothers, rfl⟩ := Option.map_eq_some_iff.1 h
      simp only [reachNode, hu]
      have hinner := hbelow n.address u others hothers
      -- the links below come from this node, which is one of the nodes
      have hcomes : ∀ l y, Comes (.node n.address) (some (under above path)) (inner u) l y →
          Comes p above ((n.address, under above path) :: inner u) l y := by
        rintro l y ⟨ha, hp | ⟨x, hx, hpath⟩⟩
        · exact ⟨ha, .inr ⟨_, List.mem_cons_self, hp⟩⟩
        · exact ⟨ha, .inr ⟨x, List.mem_cons_of_mem _ hx, hpath⟩⟩
      refine ⟨List.forall_mem_cons.2 ⟨⟨_, List.mem_cons_self, rfl, .inl ⟨rfl, rfl⟩⟩, fun l hl => ?_⟩,
        List.forall_mem_cons.2 ⟨⟨_, List.mem_cons_self, rfl, .inl ⟨rfl, rfl⟩⟩, fun y hy => ?_⟩⟩
      · obtain ⟨y, hy, hl⟩ := hinner.node l hl
        exact ⟨y, List.mem_cons_of_mem _ hy, hcomes l y hl⟩
      · obtain ⟨l, hl, hy⟩ := hinner.link y hy
        exact ⟨l, List.mem_cons_of_mem _ hl, hcomes l y hy⟩
    · cases h

theorem gives_initStruct {S : Struct} {v : Value S} (h : initStruct p S v = some links) (above : Option String) :
    Gives links p above (given S v above) := by
  induction S generalizing p links above with
  | nil =>
    cases h
    exact gives_nil p above
  | other root rest ih => exact ih h above
  | field name exported skip tag container kind data rest ihdata ihrest =>
    unfold initStruct at h
    unfold given
    by_cases hparsed : parsed exported skip tag rest = true
    · rw [if_pos hparsed] at h ⊢
      obtain ⟨here, others, hhere, hothers, rfl⟩ := andThen_eq_some.1 h
      refine Gives.append ?_ (ihrest hothers above)
      unfold setupNode at hhere
      rw [if_neg (not_not.2 rfl)] at hhere
      split at hhere
      · cases hhere
      exact gives_gather (fun slot _ links hl => gives_initChild hl fun _ _ _ hlinks => ihdata hlinks _) hhere
    · rw [if_neg hparsed] at h ⊢
      exact ihrest h above

theorem exists_reachNode {V : Type} {kind : DataKind} {path path' : String} {node : Option (Noded V)}
    {inner inner' : V → List (Nat × String)} {y : Nat × String} (hy : y ∈ reachNode kind path node inner)
    (h : ∀ u, ∀ y ∈ inner u, ∃ x ∈ inner' u, x.1 = y.1) : ∃ x ∈ reachNode kind path' node inner', x.1 = y.1 := by
  unfold reachNode at hy ⊢
  split at hy
  · exact absurd hy List.not_mem_nil
  rcases List.mem_cons.1 hy with rfl | hy
  · exact ⟨_, List.mem_cons_self, rfl⟩
  split at hy
  · obtain ⟨x, hx, hsame⟩ := h _ y hy
    exact ⟨x, List.mem_cons_of_mem _ hx, hsame⟩
  · exact absurd hy List.not_mem_nil

theorem exists_reach_of_given {S : Struct} {v : Value S} (above' : Option String) {y : Nat × String}
    (hy : y ∈ given S v above) : ∃ x ∈ reach S v above', x.1 = y.1 := by
  induction S generalizing above above' y with
  | nil => exact absurd hy List.not_mem_nil
  | other root rest ih => exact ih above' hy
  | field name exported skip tag container kind data rest ihdata ihrest =>
    unfold given at hy
    unfold reach
    rcases List.mem_append.1 hy with hy | hy
    · split at hy
      next hparsed =>
        obtain ⟨slot, hs, hy⟩ := List.mem_flatMap.1 hy
        obtain ⟨x, hx, hsame⟩ := exists_reachNode hy fun u y hy => ihdata _ hy
        rw [if_pos (Bool.and_elim_left hparsed)]
        exact ⟨x, List.mem_append_left _ (List.mem_flatMap.2 ⟨slot, hs, hx⟩), hsame⟩
      · exact absurd hy List.not_mem_nil
    · obtain ⟨x, hx, hsame⟩ := ihrest above' hy
      exact ⟨x, List.mem_append_right _ hx, hsame⟩

theorem length_lt_append (path : String) (above : String) : above.length < (above ++ "." ++ path).length := by
  simp only [String.length_append]
  have : ".".length = 1 := rfl
  omega

section Paths

variable {S : Struct} {v : Value S} (hgives : Gives links .root none (given S v none))

include hgives

theorem spells_given (hagree : PathsAgree S v) {order : List Link} (hperm : order.Perm links) (heap : Heap) (y : Nat × String)
    (hy : y ∈ given S v none) : Spells (assign heap order) y.1 y.2 := by
  -- on the length of the path: the parent's is shorter
  induction hn : y.2.length using Nat.strong_induction_on generalizing y with
  | _ n ih =>
    obtain ⟨x, hx, hxy⟩ := exists_reach_of_given none hy
    obtain ⟨l₀, hl₀, hsame, -⟩ := hgives.link y hy
    have hmem : y.1 ∈ order.map (·.address) := List.mem_map.2 ⟨l₀, hperm.mem_iff.2 hl₀, hsame⟩
    obtain ⟨l, hl, ha, hassign⟩ := exists_assigned heap hmem
    obtain ⟨y', hy', ha', hcomes⟩ := hgives.node l (hperm.mem_iff.1 hl)
    have hpath : y'.2 = y.2 :=
      ((hagree x hx).2 y' hy' (by rw [← ha', ha, hxy])).trans ((hagree x hx).2 y hy hxy.symm).symm
    rw [hpath] at hcomes
    rcases hcomes with ⟨hroot, hunder⟩ | ⟨z, hz, hparent, hunder⟩
    · rw [hunder]
      exact .top (hassign.trans (by rw [hroot]; rfl))
    · rw [hunder]
      have hshort : z.2.length < n := by
        rw [← hn, hunder]
        exact length_lt_append _ _
      exact .inner (hassign.trans (by rw [hparent])) (ih _ hshort z hz rfl)

theorem agree_of_spells (h : ∀ order : List Link, order.Perm links → ∀ heap, ∀ x ∈ reach S v none,
      Spells (assign heap order) x.1 x.2) : PathsAgree S v := by
  have hpath : ∀ n, ∀ y ∈ given S v none, y.2.length = n → ∀ x ∈ reach S v none, y.1 = x.1 → y.2 = x.2 := by
    intro n
    induction n using Nat.strong_induction_on with
    | _ n ih =>
      intro y hy hn x hx hsame
      obtain ⟨l, hl, ha, hcomes⟩ := hgives.link y hy
      -- an order that comes to this link last
      have hperm : (links.erase l ++ [l]).Perm links :=
        (List.perm_append_singleton l _).trans (List.perm_cons_erase hl).symm
      have hassign := assign_last (fun _ => none) (links.erase l) l
      have hspells := h _ hperm (fun _ => none)
      have hself := hspells x hx
      rw [← hsame, ← ha] at hself
      rcases hcomes with ⟨hroot, hunder⟩ | ⟨z, hz, hparent, hunder⟩
      · rw [hroot] at hassign
        exact hunder.trans ((Spells.top hassign).unique hself)
      · rw [hparent] at hassign
        obtain ⟨x', hx', hsame'⟩ := exists_reach_of_given none hz
        have hshort : z.2.length < n := by
          rw [← hn, hunder]
          exact length_lt_append _ _
        have hz' : z.2 = x'.2 := ih _ hshort z hz rfl x' hx' hsame'.symm
        have habove := hspells x' hx'
        rw [hsame', ← hz'] at habove
        exact hunder.trans ((Spells.inner hassign habove).unique hself)
  refine fun x hx => ⟨?_, fun y hy hsame => hpath _ y hy rfl x hx hsame⟩
  by_contra hnone
  have hspells := h links (.refl _) (fun _ => none) x hx
  have hmem : x.1 ∉ links.map (·.address) := by
    intro hmem
    obtain ⟨l, hl, ha⟩ := List.mem_map.1 hmem
    obtain ⟨y, hy, hsame, -⟩ := hgives.node l hl
    exact hnone ⟨y, hy, hsame.symm.trans ha⟩
  exact hspells.ne_none (assign_of_notMem hmem)

end Paths

/-- The parser accepts a type. For a value whose nodes are set, `Init` returns if
and only if the root field is exported, no List or Map stands directly under the
root and nodes hold pointers. All nodes then spell their bson paths, in whatever
order the assignments are made, if and only if `Init` comes to each node, and
only by keys and fields that print the path it is stored under. -/
theorem init_returns_iff {S : Struct} {schema : RootSchema} (hparse : parseSchema S = .ok schema) (v : Value S)
    (hset : AllSet S v) :
    ((init schema S v).isSome ↔ schema.rootExported = true ∧ S.Bare ∧ AllPointers S v) ∧
    ∀ links, init schema S v = some links →
      ((∀ order : List Link, order.Perm links → ∀ heap, ∀ x ∈ reach S v none, Spells (assign heap order) x.1 x.2) ↔
        PathsAgree S v) := by
  rw [init_parse hparse v]
  cases hroot : schema.rootExported with
  | false => simp
  | true =>
    simp only [if_true, true_and]
    refine ⟨by simpa using isSome_initStruct hset .root, fun links hlinks => ?_⟩
    have hgives := gives_initStruct hlinks none
    refine ⟨agree_of_spells hgives, fun hagree order hperm heap x hx => ?_⟩
    obtain ⟨⟨y, hy, hsame⟩, hpaths⟩ := hagree x hx
    have hspells := spells_given hgives hagree hperm heap y hy
    rwa [hsame, hpaths y hy hsame] at hspells

def role : Struct :=
  .other (some true) (.field "Bag" true false "bag" .node .pointer
    (.field "Items" true false "items" .list .pointer .nil .nil) .nil)

def roleValue : Value role := (some ⟨1, some (some [some ⟨2, some ()⟩], ())⟩, ())

theorem init_returns_role :
    ∃ links, init ⟨true, .entry "bag" 1 .node (.entry "items" 0 .list .nil .nil) .nil⟩ role roleValue = some links ∧
      Spells (assign (fun _ => none) links) 2 "bag.items.0" := by
  have hlinks : init ⟨true, .entry "bag" 1 .node (.entry "items" 0 .list .nil .nil) .nil⟩ role roleValue =
      some [⟨1, .root, "bag"⟩, ⟨2, .node 1, "items.0"⟩] := by decide +kernel
  have hset : AllSet role roleValue := by
    refine ⟨fun _ => ⟨List.forall_mem_singleton.2 ⟨_, _, rfl, rfl⟩, fun _ slot hs n u hn hu => ?_⟩, trivial⟩
    obtain rfl := List.mem_singleton.1 hs
    cases hn
    cases hu
    exact ⟨fun _ => ⟨List.forall_mem_singleton.2 ⟨_, _, rfl, rfl⟩, fun _ _ _ _ _ _ _ => trivial⟩, trivial⟩
  have hagree : PathsAgree role roleValue := by decide +kernel
  refine ⟨_, hlinks, ?_⟩
  exact ((init_returns_iff (S := role) rfl roleValue hset).2 _ hlinks).2 hagree _ (.refl _) _ (2, "bag.items.0")
    (by decide +kernel)

def listUnderRoot : Struct := .other (some true) (.field "Items" true false "items" .list .pointer .nil .nil)

def sameTagTwice : Struct :=
  .other (some true) (.field "A" true false "a" .node .pointer .nil (.field "B" true false "a" .node .pointer .nil .nil))

/-- A List directly under the root: the parser accepts the type, and `Init`
panics on a value whose List is nil. Of two Nodes with one tag the first is
left without a parent. -/
theorem list_under_root_panics :
    ((parseSchema listUnderRoot).toOption.map fun schema => init schema listUnderRoot (none, ())) = some none ∧
      ((parseSchema sameTagTwice).toOption.map fun schema =>
        init schema sameTagTwice (some ⟨1, some ()⟩, some ⟨2, some ()⟩, ())) = some (some [⟨2, .root, "a"⟩]) := by
  decide +kernel

end GameServer.Md.Schema
