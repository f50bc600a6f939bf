import GameServer.ClientManager

/-!
# What the registries hold

A registry is a map of keys. As long as the services in use are plain, it stands
for a directory: for each service and instance, what is registered. This is what
`Discover` shows, and what the clients are proved to learn. Other services have
keys under each other's prefixes.
-/

namespace GameServer.Discovery

/-! ## Entries under their own keys -/

def Filed (ok : String → Prop) (kind : RegistryKind) (entries : AList fun _ : String => Item) : Prop :=
  ∀ key item, entries.lookup key = some item →
    key = kind.key item.registration.service item.registration.instanceID ∧ ok item.registration.service

section
variable {ok : String → Prop} {kind : RegistryKind} {entries : AList fun _ : String => Item} {item : Registration}

theorem Filed.insert (h : Filed ok kind entries) (hitem : ok item.service) (lease : Nat) :
    Filed ok kind (entries.insert (kind.key item.service item.instanceID) ⟨item, lease⟩) := by
  intro key x hx
  by_cases hkey : key = kind.key item.service item.instanceID
  · subst hkey
    rw [AList.lookup_insert, Option.some.injEq] at hx
    subst hx
    exact ⟨rfl, hitem⟩
  · rw [AList.lookup_insert_ne hkey] at hx
    exact h key x hx

theorem Filed.erase (h : Filed ok kind entries) (key : String) : Filed ok kind (entries.erase key) := by
  intro key' x hx
  by_cases hkey : key' = key
  · rw [hkey, AList.lookup_erase] at hx
    cases hx
  · rw [AList.lookup_erase_ne hkey] at hx
    exact h key' x hx

theorem lookup_insert_key {service : String} (hservice : Plain service) (hitem : Plain item.service) (lease : Nat)
    (instanceID : String) :
    (entries.insert (kind.key item.service item.instanceID) ⟨item, lease⟩).lookup (kind.key service instanceID) =
      if service = item.service ∧ instanceID = item.instanceID then some ⟨item, lease⟩
      else entries.lookup (kind.key service instanceID) := by
  split
  next h => rw [h.1, h.2, AList.lookup_insert]
  next h => exact AList.lookup_insert_ne fun heq => h ((RegistryKind.key_inj hservice hitem).1 heq)

theorem lookup_erase_key {service : String} (hservice : Plain service) (hitem : Plain item.service) (instanceID : String) :
    (entries.erase (kind.key item.service item.instanceID)).lookup (kind.key service instanceID) =
      if service = item.service ∧ instanceID = item.instanceID then none
      else entries.lookup (kind.key service instanceID) := by
  split
  next h => rw [h.1, h.2, AList.lookup_erase]
  next h => exact AList.lookup_erase_ne fun heq => h ((RegistryKind.key_inj hservice hitem).1 heq)

end

namespace Registry

def held (r : Registry) (service instanceID : String) : Option Item := r.entries.lookup (r.kind.key service instanceID)

theorem mem_discover_iff {r : Registry} {service : String} {order : List Nat} {x : Registration} :
    x ∈ r.discover service order ↔
      ∃ key item, r.entries.lookup key = some item ∧ item.registration = x ∧ r.kind.covers service key x = true := by
  rw [discover, mem_shuffle, List.mem_map]
  constructor
  · rintro ⟨⟨key, item⟩, hmem, rfl⟩
    obtain ⟨hentry, hcovers⟩ := List.mem_filter.1 hmem
    exact ⟨key, item, AList.mem_lookup_iff.2 hentry, rfl, hcovers⟩
  · rintro ⟨key, item, hlookup, rfl, hcovers⟩
    exact ⟨⟨key, item⟩, List.mem_filter.2 ⟨AList.mem_lookup_iff.1 hlookup, hcovers⟩, rfl⟩

theorem mem_discover {r : Registry} (h : Filed Plain r.kind r.entries) {service : String} (hservice : Plain service)
    (order : List Nat) (x : Registration) :
    x ∈ r.discover service order ↔ (r.held service x.instanceID).map Item.registration = some x := by
  rw [mem_discover_iff, Option.map_eq_some_iff]
  constructor
  · rintro ⟨key, item, hlookup, rfl, hcovers⟩
    obtain ⟨rfl, hplain⟩ := h key item hlookup
    obtain rfl := (RegistryKind.covers_key_iff hservice hplain).1 hcovers
    exact ⟨item, hlookup, rfl⟩
  · rintro ⟨item, hlookup, rfl⟩
    obtain ⟨hkey, hplain⟩ := h _ _ hlookup
    obtain ⟨rfl, -⟩ := (RegistryKind.key_inj hservice hplain).1 hkey
    exact ⟨_, item, hlookup, rfl, RegistryKind.covers_key ..⟩

theorem discover_own_iff {ok : String → Prop} {r : Registry} (h : Filed ok r.kind r.entries) (service : String)
    (order : List Nat) : (∀ x ∈ r.discover service order, x.service = service) ↔
      ∀ key item, r.entries.lookup key = some item → item.registration.service ≠ service →
        ¬r.kind.covers service (r.kind.key item.registration.service item.registration.instanceID) item.registration := by
  constructor
  · intro hown key item hlookup hother hcovers
    refine hother (hown _ (mem_discover_iff.2 ⟨key, item, hlookup, rfl, ?_⟩))
    rw [(h key item hlookup).1]
    exact hcovers
  · intro hown x hx
    obtain ⟨key, item, hlookup, rfl, hcovers⟩ := mem_discover_iff.1 hx
    rw [(h key item hlookup).1] at hcovers
    exact not_not.1 fun hother => hown key item hlookup hother hcovers

end Registry

/-! ## Runs -/

inductive Op
  | register (lease : Nat) (item : Registration)
  | deregister (lease : Nat) (item : Registration)

def Op.Uses (ok : String → Prop) : Op → Prop
  | .register _ item | .deregister _ item => ok item.service

namespace Registry

def step (r : Registry) : Op → Registry
  | .register lease item => if (r.refuses item none).isSome then r else r.register lease item
  | .deregister lease item => r.deregister lease item

def run (kind : RegistryKind) (ops : List Op) : Registry := ops.foldl step ⟨kind, ∅, fun _ => none⟩

theorem kind_step (r : Registry) (op : Op) : (r.step op).kind = r.kind := by
  cases op with
  | register lease item =>
    unfold step
    dsimp only
    split <;> rfl
  | deregister lease item =>
    unfold step deregister
    dsimp only
    split <;> rfl

theorem filed_step {ok : String → Prop} {r : Registry} (h : Filed ok r.kind r.entries) (op : Op) (hop : op.Uses ok) :
    Filed ok (r.step op).kind (r.step op).entries := by
  cases op with
  | register lease item =>
    unfold step
    dsimp only
    split
    · exact h
    · exact h.insert hop lease
  | deregister lease item =>
    unfold step deregister
    dsimp only
    split
    · exact h.erase _
    · exact h

theorem filed_run {ok : String → Prop} (kind : RegistryKind) (ops : List Op) (hops : ∀ op ∈ ops, op.Uses ok) :
    (run kind ops).kind = kind ∧ Filed ok kind (run kind ops).entries := by
  refine List.foldlRecOn ops _ (motive := fun r : Registry => r.kind = kind ∧ Filed ok kind r.entries)
    ⟨rfl, fun key item h => absurd h (by simp)⟩ ?_
  rintro r ⟨rfl, h⟩ op hop
  exact ⟨kind_step r op, kind_step r op ▸ filed_step h op (hops op hop)⟩

end Registry

/-! ## The directory -/

abbrev Directory := String → String → Option Item

namespace Directory

def set (d : Directory) (item : Registration) (value : Option Item) : Directory :=
  fun service instanceID => if service = item.service ∧ instanceID = item.instanceID then value else d service instanceID

def Accepts (kind : RegistryKind) (item : Registration) : Prop :=
  kind = .static ∨ item.service ≠ "" ∧ item.instanceID ≠ "" ∧ item.address ≠ ""

instance (kind : RegistryKind) (item : Registration) : Decidable (Accepts kind item) := inferInstanceAs (Decidable (_ ∨ _))

/-- A registration ends with its lease; a static one has none, and takes away
whatever is there. -/
def step (kind : RegistryKind) (d : Directory) : Op → Directory
  | .register lease item => if Accepts kind item then d.set item (some ⟨item, lease⟩) else d
  | .deregister lease item =>
    if kind = .static ∨ (d item.service item.instanceID).any (·.lease = lease) then d.set item none else d

end Directory

theorem Registry.refuses_iff (r : Registry) (item : Registration) :
    (r.refuses item none).isSome = true ↔ ¬Directory.Accepts r.kind item := by
  unfold Registry.refuses Directory.Accepts
  have hmissing : ¬(item.service ≠ "" ∧ item.instanceID ≠ "" ∧ item.address ≠ "") ↔
      item.service = "" ∨ item.instanceID = "" ∨ item.address = "" := by tauto
  by_cases hkind : r.kind = .static
  · simp [hkind]
  · rw [if_neg hkind, or_iff_right hkind, hmissing]
    split <;> simp_all

theorem held_step {r : Registry} {d : Directory} {op : Op} (hop : op.Uses Plain)
    (h : ∀ service, Plain service → ∀ instanceID, r.held service instanceID = d service instanceID) (service : String)
    (hservice : Plain service) (instanceID : String) :
    (r.step op).held service instanceID = d.step r.kind op service instanceID := by
  cases op with
  | register lease item =>
    unfold Registry.step Directory.step
    dsimp only
    by_cases haccepts : Directory.Accepts r.kind item
    · rw [if_pos haccepts, if_neg ((r.refuses_iff item).not.2 (not_not.2 haccepts))]
      rw [Directory.set, ← h service hservice]
      exact lookup_insert_key hservice hop lease instanceID
    · rw [if_neg haccepts, if_pos ((r.refuses_iff item).2 haccepts)]
      exact h service hservice instanceID
  | deregister lease item =>
    have hitem : r.entries.lookup (r.kind.key item.service item.instanceID) = d item.service item.instanceID :=
      h item.service hop item.instanceID
    unfold Registry.step Registry.deregister Directory.step
    dsimp only
    rw [hitem]
    split
    · rw [Directory.set, ← h service hservice]
      exact lookup_erase_key hservice hop instanceID
    · exact h service hservice instanceID

/-- Registrations of plain services that begin and end in any order, under any
leases: what is under the keys is what the directory has, and `Discover` lists it. -/
theorem registry_refines_directory (kind : RegistryKind) (ops : List { op : Op // op.Uses Plain }) :
    let r := Registry.run kind (ops.map Subtype.val)
    let d := (ops.map Subtype.val).foldl (Directory.step kind) fun _ _ => none
    (∀ service, Plain service → ∀ instanceID, r.held service instanceID = d service instanceID) ∧
    ∀ service, Plain service → ∀ order x,
      x ∈ r.discover service order ↔ (d service x.instanceID).map Item.registration = some x := by
  intro r d
  have hops : ∀ op ∈ ops.map Subtype.val, op.Uses Plain := by
    intro op hop
    obtain ⟨x, -, rfl⟩ := List.mem_map.1 hop
    exact x.2
  have hheld : ∀ service, Plain service → ∀ instanceID, r.held service instanceID = d service instanceID := by
    induction ops using List.reverseRecOn with
    | nil => exact fun _ _ _ => rfl
    | append_singleton ops op ih =>
      have hops : ∀ op ∈ ops.map Subtype.val, op.Uses Plain := fun x hx => hops x (by simp_all)
      have hstep := held_step op.2 (ih hops)
      rw [(Registry.filed_run kind _ hops).1] at hstep
      simpa only [r, d, Registry.run, List.map_append, List.map_cons, List.map_nil, List.foldl_append, List.foldl_cons,
        List.foldl_nil] using hstep
  refine ⟨hheld, fun service hservice order x => ?_⟩
  obtain ⟨hkind, hfiled⟩ := Registry.filed_run kind _ hops
  rw [Registry.mem_discover (hkind.symm ▸ hfiled) hservice, hheld service hservice]

/-! ## What is decoded -/

namespace Etcd

/-- After any run, a registration that is accepted is found under its service,
its put event carries it, and its delete event carries its instance exactly if
that has no slash. Its service finds no other registrations exactly if no key of
another service has its prefix, which is so among plain services. -/
theorem registry_decodes (space : String) (ops : List Op) (lease : Nat) (item : Registration)
    (haccepted : Directory.Accepts (.etcd space) item) (order : List Nat) :
    let kind := RegistryKind.etcd space
    let r := (Registry.run kind ops).step (.register lease item)
    kind.announces item.service .put (key space item.service item.instanceID) item = some ⟨.put, item⟩ ∧
    (kind.announces item.service .delete (key space item.service item.instanceID) item =
        some ⟨.delete, { service := item.service, instanceID := item.instanceID }⟩ ↔
      '/' ∉ item.instanceID.toList) ∧
    item ∈ r.discover item.service order ∧
    ((∀ x ∈ r.discover item.service order, x.service = item.service) ↔
      ∀ k held, r.entries.lookup k = some held → held.registration.service ≠ item.service →
        ¬(servicePrefix space item.service).toList.isPrefixOf
          (key space held.registration.service held.registration.instanceID).toList) ∧
    ((∀ op ∈ ops, op.Uses Plain) → Plain item.service → ∀ x ∈ r.discover item.service order, x.service = item.service) := by
  intro kind r
  have hany : ∀ op ∈ ops, op.Uses fun _ => True := fun op _ => by cases op <;> trivial
  obtain ⟨hkind, hfiled⟩ := Registry.filed_run kind ops hany
  have hput : r = (Registry.run kind ops).register lease item :=
    if_neg ((Registry.refuses_iff _ _).not.2 (not_not.2 (hkind.symm ▸ haccepted)))
  have hrkind : r.kind = kind := (Registry.kind_step ..).trans hkind
  have hrfiled : Filed (fun _ => True) r.kind r.entries :=
    Registry.filed_step (hkind.symm ▸ hfiled) (.register lease item) trivial
  have hown : r.entries.lookup (kind.key item.service item.instanceID) = some ⟨item, lease⟩ := by
    rw [hput, Registry.register, hkind]
    exact AList.lookup_insert _
  refine ⟨RegistryKind.announces_put kind item, ?_, ?_, ?_, fun hops hplain => ?_⟩
  · have hdelete : kind.announces item.service .delete (key space item.service item.instanceID) item =
        some ⟨.delete, { service := item.service, instanceID := lastSegment (key space item.service item.instanceID) }⟩ :=
      if_pos (RegistryKind.covers_key kind item)
    rw [hdelete]
    simp only [lastSegment_key, Option.some.injEq, Event.mk.injEq, Registration.mk.injEq, true_and, and_true]
    exact lastSegment_eq_iff
  · exact Registry.mem_discover_iff.2 ⟨_, _, hown, rfl, hrkind.symm ▸ RegistryKind.covers_key kind item⟩
  · have hothers := Registry.discover_own_iff hrfiled item.service order
    rw [hrkind] at hothers
    exact hothers
  · have hplainFiled : Filed Plain r.kind r.entries := by
      obtain ⟨hkind', hfiled'⟩ := Registry.filed_run kind ops hops
      exact Registry.filed_step (hkind'.symm ▸ hfiled') (.register lease item) hplain
    refine (Registry.discover_own_iff hplainFiled item.service order).2 fun k held hk hother hcovers => hother ?_
    exact (RegistryKind.covers_key_iff hplain (hplainFiled k held hk).2).1 hcovers

theorem registry_decodes_gateway :
    Directory.Accepts (.etcd "/game") ⟨"gateway", "g1", "h:2", "", 0, ""⟩ ∧
      ∀ x ∈ ((Registry.run (.etcd "/game") [.register 1 ⟨"eu/lobby", "l1", "h:1", "", 0, ""⟩]).step
        (.register 2 ⟨"gateway", "g1", "h:2", "", 0, ""⟩)).discover "gateway" [], x.service = "gateway" := by
  refine ⟨by decide, (registry_decodes "/game" [.register 1 ⟨"eu/lobby", "l1", "h:1", "", 0, ""⟩] 2
    ⟨"gateway", "g1", "h:2", "", 0, ""⟩ (by decide) []).2.2.2.1.2 fun k held hk hother => ?_⟩
  have hentries : ∀ e ∈ ((Registry.run (.etcd "/game") [.register 1 ⟨"eu/lobby", "l1", "h:1", "", 0, ""⟩]).step
      (.register 2 ⟨"gateway", "g1", "h:2", "", 0, ""⟩)).entries.entries, e.2.registration.service ≠ "gateway" →
        ¬(servicePrefix "/game" "gateway").toList.isPrefixOf
          (key "/game" e.2.registration.service e.2.registration.instanceID).toList := by
    decide +kernel
  exact hentries ⟨k, held⟩ (AList.mem_lookup_iff.1 hk) hother

theorem slash_breaks_registry :
    RegistryKind.announces (.etcd "/game") "gateway" .delete (key "/game" "gateway" "eu/g1") ⟨"gateway", "eu/g1", "h:1", "", 0, ""⟩ =
        some ⟨.delete, { service := "gateway", instanceID := "g1" }⟩ ∧
      (Registry.run (.etcd "/game") [.register 1 ⟨"a/b", "g1", "h:1", "", 0, ""⟩]).discover "a" [] =
        [⟨"a/b", "g1", "h:1", "", 0, ""⟩] := by
  decide +kernel

end Etcd

end GameServer.Discovery
