import GameServer.Go
import Mathlib.Data.List.DropRight

/-!
# The keys of the registries

`static` keeps its registrations in one map, under service, slash and instance.
etcd has them under `path.Join(namespace, service)`, a slash and the instance; its
`Discover` and `Watch` read the keys that begin with the path of a service, and
the event of a deletion names what stands behind the last slash. A value is the
registration it encodes: JSON gives back what was put in, and nothing looks at the
text.
-/

namespace GameServer.Discovery

structure Registration where
  service : String
  instanceID : String
  address : String := ""
  version : String := ""
  weight : Int := 0
  zone : String := ""
  deriving DecidableEq

inductive EventType
  | put
  | delete
  deriving DecidableEq

structure Event where
  type : EventType
  registration : Registration
  deriving DecidableEq

/-! ## Paths -/

def cleanElements (rooted : Bool) (out : List (List Char)) : List (List Char) → List (List Char)
  | [] => out
  | element :: rest =>
    if element = [] ∨ element = ['.'] then cleanElements rooted out rest
    else if element ≠ ['.', '.'] then cleanElements rooted (element :: out) rest
    else if out ≠ [] ∧ out.head? ≠ some ['.', '.'] then cleanElements rooted out.tail rest
    -- a rooted path has nothing above it
    else if rooted then cleanElements rooted out rest
    else cleanElements rooted (element :: out) rest

def clean (path : List Char) : List Char :=
  let rooted := path.head? = some '/'
  let elements := (cleanElements rooted [] (path.splitOn '/')).reverse
  if rooted then '/' :: ['/'].intercalate elements
  else if elements = [] then ['.']
  else ['/'].intercalate elements

def join (first second : List Char) : List Char :=
  if first = [] then if second = [] then [] else clean second
  else clean (first ++ '/' :: second)

def trimRight (s : List Char) : List Char := s.rdropWhile (· = '/')

def lastSegment (name : String) : String :=
  String.ofList (name.toList.reverse.takeWhile (· ≠ '/')).reverse

namespace Etcd

-- the namespace that `New` is given
variable (space : String)

/-- The source calls it `prefix`. -/
def servicePrefix (service : String) : String :=
  String.ofList (join (trimRight space.toList) service.toList) ++ "/"

def key (service instanceID : String) : String := servicePrefix space service ++ instanceID

end Etcd

inductive RegistryKind
  | static
  | etcd (space : String)
  deriving DecidableEq

namespace RegistryKind

def key : RegistryKind → String → String → String
  | .static, service, instanceID => service ++ "/" ++ instanceID
  | .etcd space, service, instanceID => Etcd.key space service instanceID

/-- What `Discover` and `Watch` of a service take notice of. -/
def covers : RegistryKind → String → String → Registration → Bool
  | .static, service, _, item => item.service = service
  | .etcd space, service, key, _ => (Etcd.servicePrefix space service).toList.isPrefixOf key.toList

def event : RegistryKind → String → EventType → String → Registration → Event
  | .etcd _, service, .delete, key, _ => ⟨.delete, { service, instanceID := lastSegment key }⟩
  | .etcd _, _, .put, _, item => ⟨.put, item⟩
  | .static, _, type, _, item => ⟨type, item⟩

/-- What a watch of the service gets for a change under the key. -/
def announces (kind : RegistryKind) (service : String) (type : EventType) (key : String) (item : Registration) :
    Option Event :=
  if kind.covers service key item then some (kind.event service type key item) else none

end RegistryKind

/-! ## What a deletion names -/

theorem takeWhile_append_stop {α : Type} {p : α → Bool} {stop : α} (hstop : p stop = false) (l m : List α) :
    (l ++ stop :: m).takeWhile p = l.takeWhile p := by
  induction l with
  | nil => simp [hstop]
  | cons a l ih => simp only [List.cons_append, List.takeWhile_cons, ih]

theorem lastSegment_append_slash (path name : String) :
    lastSegment (path ++ "/" ++ name) = lastSegment name := by
  have hreverse : (path ++ "/" ++ name).toList.reverse = name.toList.reverse ++ '/' :: path.toList.reverse := by simp
  rw [lastSegment, hreverse, takeWhile_append_stop (by decide), lastSegment]

theorem lastSegment_eq_iff {name : String} : lastSegment name = name ↔ '/' ∉ name.toList := by
  rw [lastSegment, ← String.toList_inj, String.toList_ofList]
  refine List.rtakeWhile_eq_self_iff.trans ⟨fun h hslash => absurd (h _ hslash) (by decide), fun h c hc => ?_⟩
  exact decide_eq_true fun heq => h (heq ▸ hc)

theorem lastSegment_key (space service instanceID : String) :
    lastSegment (Etcd.key space service instanceID) = lastSegment instanceID :=
  lastSegment_append_slash _ _

theorem isPrefixOf_key (space service instanceID : String) :
    (Etcd.servicePrefix space service).toList.isPrefixOf (Etcd.key space service instanceID).toList := by
  simp [Etcd.key]

/-! ## One path for each plain name -/

def Plain (service : String) : Prop :=
  service ≠ "" ∧ '/' ∉ service.toList ∧ service ≠ "." ∧ service ≠ ".."

instance (service : String) : Decidable (Plain service) := inferInstanceAs (Decidable (_ ∧ _))

theorem cleanElements_snoc (rooted : Bool) {name : List Char} (hempty : name ≠ []) (hdot : name ≠ ['.'])
    (hdots : name ≠ ['.', '.']) (elements out : List (List Char)) :
    cleanElements rooted out (elements ++ [name]) = name :: cleanElements rooted out elements := by
  fun_induction cleanElements rooted out elements <;> simp_all [cleanElements]

theorem intercalate_snoc (sep : List Char) (elements : List (List Char)) (name : List Char) :
    sep.intercalate (elements ++ [name]) = elements.flatMap (· ++ sep) ++ name := by
  induction elements with
  | nil => simp
  | cons e rest ih => rw [List.cons_append, List.intercalate_cons_of_ne_nil (by simp), ih]; simp

theorem Plain.toList_ne {service : String} (h : Plain service) :
    service.toList ≠ [] ∧ service.toList ≠ ['.'] ∧ service.toList ≠ ['.', '.'] := by
  obtain ⟨hempty, -, hdot, hdots⟩ := h
  refine ⟨fun h => hempty ?_, fun h => hdot ?_, fun h => hdots ?_⟩ <;> exact String.toList_inj.1 h

theorem exists_join_eq (first : List Char) :
    ∃ base, ∀ service : String, Plain service → join first service.toList = base ++ service.toList := by
  by_cases hfirst : first = []
  · refine ⟨[], fun service hplain => ?_⟩
    obtain ⟨hempty, hdot, hdots⟩ := hplain.toList_ne
    have hhead : ¬ service.toList.head? = some '/' := fun h => hplain.2.1 (List.mem_of_head? h)
    simp [join, hfirst, hempty, clean, hhead, List.splitOn_eq_singleton hplain.2.1, cleanElements, hdot, hdots]
  · let rooted : Bool := first.head? = some '/'
    refine ⟨(if rooted then ['/'] else []) ++
      (cleanElements rooted [] (first.splitOn '/')).reverse.flatMap (· ++ ['/']), fun service hplain => ?_⟩
    obtain ⟨hempty, hdot, hdots⟩ := hplain.toList_ne
    have hhead : (first ++ '/' :: service.toList).head? = first.head? := List.head?_append_of_ne_nil _ hfirst
    simp only [join, if_neg hfirst, clean, hhead, List.splitOn_append_cons_self,
      List.splitOn_eq_singleton hplain.2.1, cleanElements_snoc _ hempty hdot hdots, List.reverse_cons,
      intercalate_snoc, rooted]
    split <;> simp_all

theorem Plain.isPrefixOf_key_iff {space service service' instanceID : String} (hplain : Plain service)
    (hplain' : Plain service') :
    (Etcd.servicePrefix space service).toList.isPrefixOf (Etcd.key space service' instanceID).toList ↔ service' = service := by
  refine ⟨fun h => ?_, fun h => h ▸ isPrefixOf_key space service' instanceID⟩
  obtain ⟨base, hbase⟩ := exists_join_eq (trimRight space.toList)
  obtain ⟨rest, hrest⟩ := List.isPrefixOf_iff_prefix.1 h
  have hcancel : service.toList ++ '/' :: rest = service'.toList ++ '/' :: instanceID.toList := by
    simpa [Etcd.key, Etcd.servicePrefix, hbase service hplain, hbase service' hplain'] using hrest
  exact (String.toList_inj.1 (append_sep_inj hplain.2.1 hplain'.2.1 hcancel).1).symm

namespace RegistryKind

variable {kind : RegistryKind} {service service' instanceID instanceID' : String} {item : Registration}

theorem key_inj (hplain : Plain service) (hplain' : Plain service') :
    kind.key service instanceID = kind.key service' instanceID' ↔ service = service' ∧ instanceID = instanceID' := by
  refine ⟨fun h => ?_, fun ⟨hs, hi⟩ => hs ▸ hi ▸ rfl⟩
  cases kind with
  | static =>
    have hlist : service.toList ++ '/' :: instanceID.toList = service'.toList ++ '/' :: instanceID'.toList := by
      simpa [key] using congrArg String.toList h
    obtain ⟨hs, hi⟩ := append_sep_inj hplain.2.1 hplain'.2.1 hlist
    exact ⟨String.toList_inj.1 hs, String.toList_inj.1 hi⟩
  | etcd space =>
    have h : Etcd.key space service instanceID = Etcd.key space service' instanceID' := h
    obtain rfl := (hplain.isPrefixOf_key_iff hplain').1 (h ▸ isPrefixOf_key space service instanceID)
    exact ⟨rfl, String.toList_inj.1 (by simpa [Etcd.key] using congrArg String.toList h)⟩

theorem covers_key (kind : RegistryKind) (item : Registration) :
    kind.covers item.service (kind.key item.service item.instanceID) item = true := by
  cases kind with
  | static => exact decide_eq_true rfl
  | etcd space => exact isPrefixOf_key ..

theorem covers_key_iff (hplain : Plain service) (hitem : Plain item.service) :
    kind.covers service (kind.key item.service item.instanceID) item = true ↔ item.service = service := by
  cases kind with
  | static => exact decide_eq_true_iff
  | etcd space => exact hplain.isPrefixOf_key_iff hitem

theorem announces_put (kind : RegistryKind) (item : Registration) :
    kind.announces item.service .put (kind.key item.service item.instanceID) item = some ⟨.put, item⟩ := by
  rw [announces, if_pos (covers_key kind item)]
  cases kind <;> rfl

theorem announces_delete (kind : RegistryKind) (item : Registration) :
    ∃ r : Registration, kind.announces item.service .delete (kind.key item.service item.instanceID) item = some ⟨.delete, r⟩ ∧
      r.instanceID = if kind = .static then item.instanceID else lastSegment item.instanceID := by
  rw [announces, if_pos (covers_key kind item)]
  cases kind with
  | static => exact ⟨item, rfl, rfl⟩
  | etcd space => exact ⟨⟨item.service, _, _, _, _, _⟩, rfl, lastSegment_key ..⟩

end RegistryKind

end GameServer.Discovery
