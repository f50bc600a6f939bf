import Mathlib.Data.List.Pairwise
import Mathlib.Tactic.Push

/-!
# Document collections with unique indexes

A collection is a list of documents, no two of which share a value that some
unique index covers (`clash`). The commands are those of a document store:
an insert is refused when it would break an index, an update changes the first
document its filter matches. No result depends on the order of the documents
once the filter fixes a unique key (`findOne_eq_some`, `mem_updateOne`).
-/

namespace GameServer

structure Index (α : Type) where
  clash : α → α → Bool
  symm : ∀ a b, clash a b = clash b a

namespace Index

variable {α κ : Type} [DecidableEq κ]

def on (key : α → κ) : Index α where
  clash a b := key a == key b
  symm a b := by by_cases h : key a = key b <;> simp [h, eq_comm]

def partialOn (p : α → Bool) (key : α → κ) : Index α where
  clash a b := p a && p b && key a == key b
  symm a b := by
    by_cases h : key a = key b
    · rw [h, Bool.and_comm (p a)]
    · rw [beq_false_of_ne h, beq_false_of_ne (Ne.symm h), Bool.and_false, Bool.and_false]

def and (ix jx : Index α) : Index α where
  clash a b := ix.clash a b || jx.clash a b
  symm a b := by rw [ix.symm, jx.symm]

@[simp] theorem on_clash (key : α → κ) (a b : α) : (on key).clash a b = true ↔ key a = key b := by
  simp [on]

@[simp] theorem and_clash (ix jx : Index α) (a b : α) :
    (ix.and jx).clash a b = true ↔ ix.clash a b = true ∨ jx.clash a b = true := by
  simp [Index.and]

end Index

structure Coll {α : Type} (ix : Index α) where
  docs : List α
  unique : docs.Pairwise fun a b => ix.clash a b = false

def updateFirst {α : Type} (p : α → Bool) (f : α → α) : List α → List α
  | [] => []
  | d :: ds => if p d then f d :: ds else d :: updateFirst p f ds

namespace Coll

variable {α : Type} {ix : Index α}

def empty : Coll ix := ⟨[], List.Pairwise.nil⟩

instance : Membership α (Coll ix) := ⟨fun c d => d ∈ c.docs⟩

instance (d : α) (c : Coll ix) [DecidableEq α] : Decidable (d ∈ c) := inferInstanceAs (Decidable (d ∈ c.docs))

variable {d : α} {c : Coll ix} {p : α → Bool}

theorem mem_def : d ∈ c ↔ d ∈ c.docs := Iff.rfl

@[simp] theorem not_mem_empty (d : α) : d ∉ (empty : Coll ix) := by simp [mem_def, empty]

theorem eq_of_clash {a b : α} (ha : a ∈ c) (hb : b ∈ c) (h : ix.clash a b = true) : a = b := by
  have : Std.Symm fun a b => ix.clash a b = false := ⟨fun a b hab => by rw [ix.symm]; exact hab⟩
  by_contra hne
  have hab := c.unique.forall ha hb hne
  rw [h] at hab
  cases hab

def findOne (c : Coll ix) (p : α → Bool) : Option α := c.docs.find? p

theorem mem_of_findOne (h : c.findOne p = some d) : d ∈ c ∧ p d = true :=
  ⟨List.mem_of_find?_eq_some h, List.find?_some h⟩

theorem findOne_eq_none : c.findOne p = none ↔ ∀ d ∈ c, p d = false := by
  simp [findOne, mem_def]

theorem findOne_eq_some (hd : d ∈ c) (hp : p d = true) (huniq : ∀ x ∈ c, p x = true → ix.clash d x = true) :
    c.findOne p = some d := by
  cases h : c.findOne p with
  | none =>
    rw [findOne_eq_none] at h
    rw [h d hd] at hp; cases hp
  | some x =>
    obtain ⟨hx, hpx⟩ := mem_of_findOne h
    rw [eq_of_clash hd hx (huniq x hx hpx)]

def insertOne (c : Coll ix) (d : α) : Option (Coll ix) :=
  if h : ∀ x ∈ c.docs, ix.clash d x = false then some ⟨d :: c.docs, List.pairwise_cons.mpr ⟨h, c.unique⟩⟩
  else none

theorem insertOne_eq_some {c' : Coll ix} (h : c.insertOne d = some c') :
    c'.docs = d :: c.docs ∧ ∀ x ∈ c, ix.clash d x = false := by
  unfold insertOne at h
  split at h
  · rename_i hd
    cases h
    exact ⟨rfl, hd⟩
  · cases h

theorem mem_insertOne {c' : Coll ix} (h : c.insertOne d = some c') (x : α) :
    x ∈ c' ↔ x = d ∨ x ∈ c := by
  rw [mem_def, (insertOne_eq_some h).1, List.mem_cons, mem_def]

theorem insertOne_isSome (h : ∀ x ∈ c, ix.clash d x = false) :
    ∃ c', c.insertOne d = some c' := by
  exact ⟨_, dif_pos h⟩

theorem insertOne_eq_none (h : c.insertOne d = none) : ∃ x ∈ c, ix.clash d x = true := by
  unfold insertOne at h
  split at h
  · cases h
  · rename_i hd
    push Not at hd
    simpa [mem_def] using hd

def KeepsKeys (ix : Index α) (f : α → α) : Prop := ∀ a b, ix.clash (f a) b = ix.clash a b

theorem updateFirst_pairwise {f : α → α} (hf : KeepsKeys ix f) :
    ∀ {ds : List α}, ds.Pairwise (fun a b => ix.clash a b = false) →
      (updateFirst p f ds).Pairwise fun a b => ix.clash a b = false := by
  have hmem : ∀ (d : α) (ds : List α), (∀ x ∈ ds, ix.clash d x = false) →
      ∀ x ∈ updateFirst p f ds, ix.clash d x = false := by
    intro d ds
    induction ds with
    | nil => intro h x hx; exact h x hx
    | cons y ds ih =>
      intro h x hx
      rw [List.forall_mem_cons] at h
      unfold updateFirst at hx
      split at hx
      · rcases List.mem_cons.mp hx with rfl | hx
        · rw [ix.symm, hf, ix.symm]; exact h.1
        · exact h.2 x hx
      · rcases List.mem_cons.mp hx with rfl | hx
        · exact h.1
        · exact ih h.2 x hx
  intro ds h
  induction h with
  | nil => exact List.Pairwise.nil
  | cons hd hds ih =>
    unfold updateFirst
    split
    · exact List.pairwise_cons.mpr ⟨fun x hx => by rw [hf]; exact hd x hx, hds⟩
    · exact List.pairwise_cons.mpr ⟨hmem _ _ hd, ih⟩

def updateOne (c : Coll ix) (p : α → Bool) (f : α → α) (hf : KeepsKeys ix f) : Coll ix :=
  ⟨updateFirst p f c.docs, updateFirst_pairwise hf c.unique⟩

def Pins (ix : Index α) (p : α → Bool) : Prop := ∀ a b, p a = true → p b = true → ix.clash a b = true

theorem updateFirst_eq_map {f : α → α} : ∀ {ds : List α},
    ds.Pairwise (fun a b => p a = true → p b = false) →
      updateFirst p f ds = ds.map fun d => if p d then f d else d
  | [], _ => rfl
  | d :: ds, h => by
    rw [List.pairwise_cons] at h
    unfold updateFirst
    by_cases hp : p d = true
    · have : ds.map (fun d => if p d then f d else d) = ds := by
        rw [List.map_congr_left (g := id) fun x hx => by simp [h.1 x hx hp], List.map_id]
      simp [hp, this]
    · simp [hp, updateFirst_eq_map h.2]

theorem mem_updateOne {f : α → α} {hf : KeepsKeys ix f} (hp : Pins ix p) (x : α) :
    x ∈ c.updateOne p f hf ↔ (x ∈ c ∧ p x = false) ∨ ∃ d ∈ c, p d = true ∧ x = f d := by
  have hpw : c.docs.Pairwise fun a b => p a = true → p b = false := by
    refine c.unique.imp fun {a b} hab pa => ?_
    by_contra pb
    rw [Bool.not_eq_false] at pb
    rw [hp a b pa pb] at hab
    cases hab
  have hdocs : (c.updateOne p f hf).docs = c.docs.map fun d => if p d then f d else d := updateFirst_eq_map hpw
  rw [mem_def, hdocs, List.mem_map]
  constructor
  · rintro ⟨d, hd, rfl⟩
    by_cases h : p d = true
    · exact .inr ⟨d, hd, h, by simp [h]⟩
    · rw [if_neg h]
      exact .inl ⟨hd, by simpa using h⟩
  · rintro (⟨hx, h⟩ | ⟨d, hd, h, rfl⟩)
    · exact ⟨x, hx, by simp [h]⟩
    · exact ⟨d, hd, by simp [h]⟩

theorem mem_updateOne_of_findOne {f : α → α} (hp : Pins ix p) (hf : KeepsKeys ix f) (hd : c.findOne p = some d)
    (x : α) : x ∈ c.updateOne p f hf ↔ (x ∈ c ∧ p x = false) ∨ x = f d := by
  obtain ⟨hmem, hpd⟩ := mem_of_findOne hd
  rw [mem_updateOne hp]
  refine or_congr_right ⟨fun ⟨y, hy, hpy, hx⟩ => ?_, fun hx => ⟨d, hmem, hpd, hx⟩⟩
  rw [hx, eq_of_clash hy hmem (hp y d hpy hpd)]

def upsert (c : Coll ix) (d : α) : Coll ix :=
  ⟨d :: c.docs.filter fun x => !ix.clash d x, by
    refine List.pairwise_cons.mpr ⟨fun x hx => by simpa using (List.mem_filter.mp hx).2, c.unique.filter _⟩⟩

theorem mem_upsert {x : α} : x ∈ c.upsert d ↔ x = d ∨ (x ∈ c ∧ ix.clash d x = false) := by
  simp [mem_def, upsert]

def deleteOne (c : Coll ix) (p : α → Bool) : Coll ix := ⟨c.docs.eraseP p, c.unique.sublist List.eraseP_sublist⟩

theorem mem_of_mem_deleteOne {x : α} (h : x ∈ c.deleteOne p) : x ∈ c :=
  List.mem_of_mem_eraseP h

theorem mem_deleteOne_of_neg {x : α} (h : p x = false) : x ∈ c.deleteOne p ↔ x ∈ c := by
  rw [mem_def, mem_def, deleteOne, List.mem_eraseP_of_neg (by simp [h])]

theorem neg_of_mem_deleteOne (hp : Pins ix p) {x : α} (h : x ∈ c.deleteOne p) : p x = false := by
  by_contra hx
  have hx : p x = true := by simpa using hx
  obtain ⟨a, l₁, l₂, -, ha, hdocs, herase⟩ := List.exists_of_eraseP (mem_of_mem_deleteOne h) hx
  have hunique := c.unique
  rw [hdocs, List.pairwise_append] at hunique
  have hmem : x ∈ l₁ ++ l₂ := herase ▸ h
  rcases List.mem_append.mp hmem with h₁ | h₂
  · have := hunique.2.2 x h₁ a (List.mem_cons_self ..)
    rw [hp x a hx ha] at this
    cases this
  · have := (List.pairwise_cons.mp hunique.2.1).1 x h₂
    rw [hp a x ha hx] at this
    cases this

def deleteMany (c : Coll ix) (p : α → Bool) : Coll ix := ⟨c.docs.filter fun d => !p d, c.unique.filter _⟩

theorem mem_deleteMany {x : α} : x ∈ c.deleteMany p ↔ x ∈ c ∧ p x = false := by
  simp [mem_def, deleteMany]

end Coll

end GameServer
