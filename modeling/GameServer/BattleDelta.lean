import GameServer.Battle

/-!
# What a delta says

A delta recorded by `recordDeltaLocked`, and a composition of such deltas, is
read as a patch of the players map. Composing deltas composes their patches, so
along a chain of rooms the composition takes the first room's players to the
last's.
-/

namespace GameServer.Battle

/-! ## Rooms up to the layout of their maps -/

structure Room.Agrees (a b : Room) : Prop where
  id : a.id = b.id
  tick : a.tick = b.tick
  stateVersion : a.stateVersion = b.stateVersion
  status : a.status = b.status
  players : a.players.lookup = b.players.lookup

variable {a b : Room} {d : RoomDelta} {p : String}

theorem Room.Agrees.rfl : a.Agrees a := ⟨Eq.refl _, Eq.refl _, Eq.refl _, Eq.refl _, Eq.refl _⟩

theorem Room.Agrees.symm (h : a.Agrees b) : b.Agrees a :=
  ⟨h.id.symm, h.tick.symm, h.stateVersion.symm, h.status.symm, h.players.symm⟩

theorem Room.Agrees.trans {c : Room} (h : a.Agrees b) (h' : b.Agrees c) : a.Agrees c :=
  ⟨h.id.trans h'.id, h.tick.trans h'.tick, h.stateVersion.trans h'.stateVersion, h.status.trans h'.status,
    h.players.trans h'.players⟩

def Room.Keyed (r : Room) : Prop := ∀ p s, r.players.lookup p = some s → s.playerID = p

/-! ## Patches of the players map -/

def RoomDelta.patch (d : RoomDelta) : Patch String PlayerState := fun p =>
  match d.upsertPlayers.find? (·.playerID == p) with
  | some s => some (some s)
  | none => if p ∈ d.removedPlayerIDs then some none else none

def Composition.patch (c : Composition) : Patch String PlayerState := fun p =>
  match c.players.lookup p with
  | some s => some (some s)
  | none => if p ∈ c.removed then some none else none

structure RoomDelta.Proper (d : RoomDelta) : Prop where
  once : ∀ s ∈ d.upsertPlayers, ∀ t ∈ d.upsertPlayers, s.playerID = t.playerID → s = t
  apart : ∀ s ∈ d.upsertPlayers, s.playerID ∉ d.removedPlayerIDs

theorem RoomDelta.patch_of_mem (h : d.Proper) {s : PlayerState} (hs : s ∈ d.upsertPlayers) :
    d.patch s.playerID = some (some s) := by
  cases hf : d.upsertPlayers.find? (·.playerID == s.playerID) with
  | none =>
    have := List.find?_eq_none.mp hf s hs
    simp at this
  | some t =>
    have ht : t.playerID = s.playerID := by simpa using List.find?_some hf
    obtain rfl := h.once t (List.mem_of_find?_eq_some hf) s hs ht
    simp [patch, hf]

theorem RoomDelta.patch_of_forall_ne (h : ∀ s ∈ d.upsertPlayers, s.playerID ≠ p) :
    d.patch p = if p ∈ d.removedPlayerIDs then some none else none := by
  have hf : d.upsertPlayers.find? (·.playerID == p) = none := by
    rw [List.find?_eq_none]
    intro s hs
    simpa using h s hs
  simp [patch, hf]

theorem mem_insert_units : ∀ (ids : List String) (m : AList fun _ : String => Unit),
    p ∈ ids.foldl (fun m id => m.insert id ()) m ↔ p ∈ ids ∨ p ∈ m
  | [], m => by simp
  | id :: ids, m => by
    rw [List.foldl_cons, mem_insert_units ids, AList.mem_insert, List.mem_cons]
    tauto

theorem mem_eraseAll {ids : List String} {m : AList fun _ : String => Unit} :
    p ∈ eraseAll m ids ↔ p ∉ ids ∧ p ∈ m := by
  rw [← AList.lookup_isSome, lookup_eraseAll]
  by_cases h : p ∈ ids <;> simp [h, AList.lookup_isSome]

theorem Composition.mem_removed_add {c : Composition} :
    p ∈ (c.add d).removed ↔ p ∈ d.removedPlayerIDs ∨ (∀ s ∈ d.upsertPlayers, s.playerID ≠ p) ∧ p ∈ c.removed := by
  simp [add, mem_insert_units, mem_eraseAll]

theorem Composition.lookup_add_of_mem (c : Composition) (h : d.Proper) {s : PlayerState} (hs : s ∈ d.upsertPlayers) :
    (c.add d).players.lookup s.playerID = some s := by
  simp only [add, lookup_eraseAll, h.apart s hs, if_false]
  exact lookup_insertAll_of_mem (fun t ht heq => h.once t ht s hs heq) hs

theorem Composition.lookup_add_of_forall_ne (c : Composition) (h : ∀ s ∈ d.upsertPlayers, s.playerID ≠ p) :
    (c.add d).players.lookup p = if p ∈ d.removedPlayerIDs then none else c.players.lookup p := by
  simp only [add, lookup_eraseAll, lookup_insertAll_of_forall_ne h]

theorem Composition.patch_add (c : Composition) (h : d.Proper) :
    (c.add d).patch = c.patch.andThen d.patch := by
  funext p
  by_cases hp : ∃ s ∈ d.upsertPlayers, s.playerID = p
  · obtain ⟨s, hs, rfl⟩ := hp
    simp [patch, c.lookup_add_of_mem h hs, Patch.andThen, RoomDelta.patch_of_mem h hs]
  · have hne : ∀ s ∈ d.upsertPlayers, s.playerID ≠ p := fun s hs heq => hp ⟨s, hs, heq⟩
    have hlookup := c.lookup_add_of_forall_ne hne
    have hpatch := RoomDelta.patch_of_forall_ne hne
    by_cases hr : p ∈ d.removedPlayerIDs
    · simp [patch, hlookup, mem_removed_add, hr, Patch.andThen, hpatch]
    · simp only [hr, if_false] at hlookup hpatch
      have hmem : p ∈ (c.add d).removed ↔ p ∈ c.removed := by
        rw [mem_removed_add]
        exact ⟨fun h => (h.resolve_left hr).2, fun h => .inr ⟨hne, h⟩⟩
      simp only [patch, hlookup, hmem, Patch.andThen, hpatch, Option.none_or]

/-! ## Recorded deltas -/

structure RoomDelta.Leads (d : RoomDelta) (a b : Room) : Prop extends d.Proper where
  fromVersion : d.fromStateVersion = a.stateVersion
  toVersion : d.toStateVersion = b.stateVersion
  tick : d.tick = b.tick
  status : d.status = b.status
  players : d.patch.apply a.players.lookup = b.players.lookup

theorem mem_upsertPlayers {e : Env} {s : PlayerState} :
    s ∈ (roomDelta e a b).upsertPlayers ↔ ∃ p, b.players.lookup p = some s ∧ a.players.lookup p ≠ some s := by
  simp only [roomDelta, List.mem_filterMap, mem_shuffle, Option.ite_none_left_eq_some, Option.some.injEq]
  constructor
  · rintro ⟨⟨p, s'⟩, hmem, hne, rfl⟩
    exact ⟨p, AList.mem_lookup_iff.mpr hmem, hne⟩
  · rintro ⟨p, hp, hne⟩
    exact ⟨⟨p, s⟩, AList.mem_lookup_iff.mp hp, hne, rfl⟩

theorem mem_removedPlayerIDs {e : Env} :
    p ∈ (roomDelta e a b).removedPlayerIDs ↔ p ∈ a.players ∧ p ∉ b.players := by
  simp only [roomDelta, List.mem_filterMap, mem_shuffle, Option.ite_none_left_eq_some, Option.some.injEq]
  constructor
  · rintro ⟨⟨p, s⟩, hmem, hne, rfl⟩
    exact ⟨AList.mem_keys.mpr (List.mem_map_of_mem hmem), hne⟩
  · rintro ⟨hp, hne⟩
    obtain ⟨⟨q, s⟩, hmem, rfl⟩ := List.mem_map.mp (AList.mem_keys.mp hp)
    exact ⟨⟨q, s⟩, hmem, hne, rfl⟩

theorem roomDelta_leads (e : Env) (a : Room) (hb : b.Keyed) : (roomDelta e a b).Leads a b := by
  have hproper : (roomDelta e a b).Proper := by
    constructor
    · intro s hs t ht hst
      obtain ⟨p, hp, -⟩ := mem_upsertPlayers.mp hs
      obtain ⟨q, hq, -⟩ := mem_upsertPlayers.mp ht
      rw [hb p s hp, hb q t hq] at hst
      subst hst
      exact Option.some.inj (hp.symm.trans hq)
    · intro s hs hr
      obtain ⟨p, hp, -⟩ := mem_upsertPlayers.mp hs
      rw [hb p s hp, mem_removedPlayerIDs] at hr
      exact hr.2 (AList.lookup_isSome.mp (by simp [hp]))
  refine ⟨hproper, rfl, rfl, rfl, rfl, ?_⟩
  funext p
  cases hp : b.players.lookup p with
  | some s =>
    by_cases hold : a.players.lookup p = some s
    · -- unchanged: neither set nor removed
      have hne : ∀ t ∈ (roomDelta e a b).upsertPlayers, t.playerID ≠ p := by
        intro t ht heq
        obtain ⟨q, hq, hne⟩ := mem_upsertPlayers.mp ht
        obtain rfl : q = p := (hb q t hq).symm.trans heq
        rw [hp] at hq
        exact hne (hold.trans hq)
      have hr : p ∉ (roomDelta e a b).removedPlayerIDs := by
        rw [mem_removedPlayerIDs]
        exact fun h => h.2 (AList.lookup_isSome.mp (by simp [hp]))
      simp [Patch.apply, RoomDelta.patch_of_forall_ne hne, hr, hold]
    · have hs : s ∈ (roomDelta e a b).upsertPlayers := mem_upsertPlayers.mpr ⟨p, hp, hold⟩
      have := RoomDelta.patch_of_mem hproper hs
      rw [hb p s hp] at this
      simp [Patch.apply, this]
  | none =>
    have hne : ∀ t ∈ (roomDelta e a b).upsertPlayers, t.playerID ≠ p := by
      intro t ht heq
      obtain ⟨q, hq, -⟩ := mem_upsertPlayers.mp ht
      obtain rfl : q = p := (hb q t hq).symm.trans heq
      rw [hp] at hq
      cases hq
    have hpb : p ∉ b.players := fun h => by simp [← AList.lookup_isSome, hp] at h
    by_cases hpa : p ∈ a.players
    · have hr : p ∈ (roomDelta e a b).removedPlayerIDs := mem_removedPlayerIDs.mpr ⟨hpa, hpb⟩
      simp [Patch.apply, RoomDelta.patch_of_forall_ne hne, hr]
    · have hr : p ∉ (roomDelta e a b).removedPlayerIDs := fun h => hpa (mem_removedPlayerIDs.mp h).1
      simp [Patch.apply, RoomDelta.patch_of_forall_ne hne, hr, AList.lookup_eq_none.mpr hpa]

/-! ## Compositions -/

structure Composition.Leads (c : Composition) (a b : Room) : Prop where
  keyed : ∀ p s, c.players.lookup p = some s → s.playerID = p
  apart : ∀ p, p ∈ c.players → p ∉ c.removed
  version : c.nextVersion = b.stateVersion
  head : c.nextVersion = a.stateVersion ∨ c.tick = b.tick ∧ c.status = b.status
  players : c.patch.apply a.players.lookup = b.players.lookup

theorem Composition.leads_refl (a : Room) : Composition.Leads { nextVersion := a.stateVersion } a a := by
  refine ⟨?_, ?_, rfl, .inl rfl, ?_⟩
  · intro p s h
    simp at h
  · intro p h
    simp at h
  · funext p
    simp [Patch.apply, patch]

theorem Composition.Leads.add {c : Composition} {b' : Room} (h : c.Leads a b) (hd : d.Leads b b') :
    (c.add d).Leads a b' := by
  refine ⟨?_, ?_, hd.toVersion, .inr ⟨hd.tick, hd.status⟩, ?_⟩
  · intro p s hp
    simp only [Composition.add, lookup_eraseAll, Option.ite_none_left_eq_some] at hp
    rcases lookup_insertAll_eq_some hp.2 with hp | hp
    · exact hp
    · exact h.keyed p s hp
  · intro p hp hr
    obtain ⟨s, hs⟩ := Option.isSome_iff_exists.mp (AList.lookup_isSome.mpr hp)
    rcases mem_removed_add.mp hr with hr | ⟨hne, hr⟩
    · by_cases hup : ∃ t ∈ d.upsertPlayers, t.playerID = p
      · obtain ⟨t, ht, rfl⟩ := hup
        exact hd.apart t ht hr
      · rw [c.lookup_add_of_forall_ne fun t ht heq => hup ⟨t, ht, heq⟩, if_pos hr] at hs
        cases hs
    · rw [c.lookup_add_of_forall_ne hne] at hs
      split at hs
      · cases hs
      · exact h.apart p (AList.lookup_isSome.mp (by simp [hs])) hr
  · rw [patch_add c hd.toProper, Patch.apply_andThen, h.players, hd.players]

structure Chained (past : Room → Prop) (k : UInt64) (deltas : List RoomDelta) : Prop where
  leads : ∀ d ∈ deltas, d.toStateVersion ≤ k → ∃ a b, past a ∧ past b ∧ d.Leads a b ∧ a.stateVersion < b.stateVersion
  unique : ∀ a b, past a → past b → a.stateVersion ≤ k → a.stateVersion = b.stateVersion → a.Agrees b

theorem RoomDelta.Leads.congr_left {a' : Room} (h : d.Leads a b) (ha : a.Agrees a') :
    d.Leads a' b :=
  ⟨h.toProper, h.fromVersion.trans ha.stateVersion, h.toVersion, h.tick, h.status, ha.players ▸ h.players⟩

theorem addAll_leads {past : Room → Prop} {k : UInt64} : ∀ {deltas : List RoomDelta} {c : Composition} {b : Room},
    Chained past k deltas → past b → c.Leads a b → ∃ b', past b' ∧ (Composition.addAll k deltas c).Leads a b'
  | [], c, b, _, hb, hc => ⟨b, hb, hc⟩
  | d :: deltas, c, b, hk, hb, hc => by
    have hk' : Chained past k deltas := ⟨fun d' hd' => hk.leads d' (List.mem_cons_of_mem _ hd'), hk.unique⟩
    unfold Composition.addAll
    split
    · exact addAll_leads hk' hb hc
    · rename_i hcond
      obtain ⟨hfrom, hto⟩ : d.fromStateVersion = c.nextVersion ∧ d.toStateVersion ≤ k := by
        simpa using hcond
      obtain ⟨a₁, b₁, ha₁, hb₁, hd, hlt⟩ := hk.leads d (List.mem_cons_self ..) hto
      -- the room the delta starts from is the one the composition has reached
      have hsame : a₁.stateVersion = b.stateVersion := by rw [← hd.fromVersion, hfrom, hc.version]
      have hle : a₁.stateVersion ≤ k := by
        rw [← hd.toVersion] at hlt
        exact UInt64.le_trans (UInt64.le_of_lt hlt) hto
      have hadd := hc.add (hd.congr_left (hk.unique a₁ b ha₁ hb hle hsame))
      split
      · exact ⟨b₁, hb₁, hadd⟩
      · exact addAll_leads hk' hb₁ hadd

theorem Composition.Leads.delta {c : Composition} (h : c.Leads a b) (hne : a.stateVersion ≠ b.stateVersion) (e : Env)
    (roomID : UInt64) : (c.delta e roomID a.stateVersion b.stateVersion).Leads a b := by
  set d := c.delta e roomID a.stateVersion b.stateVersion with hd
  have hup : ∀ s, s ∈ d.upsertPlayers ↔ c.players.lookup s.playerID = some s := by
    intro s
    simp only [hd, Composition.delta, List.mem_map, mem_shuffle]
    constructor
    · rintro ⟨⟨p, s'⟩, hmem, rfl⟩
      have hp : c.players.lookup p = some s' := AList.mem_lookup_iff.mpr hmem
      rwa [h.keyed p s' hp]
    · intro hs
      exact ⟨⟨_, s⟩, AList.mem_lookup_iff.mp hs, rfl⟩
  have hrem : ∀ p, p ∈ d.removedPlayerIDs ↔ p ∈ c.removed := by
    intro p
    simp only [hd, Composition.delta, List.mem_map, mem_shuffle, AList.mem_keys, AList.keys, List.keys]
  have hproper : d.Proper := by
    constructor
    · intro s hs t ht hst
      rw [hup] at hs ht
      rw [hst] at hs
      exact Option.some.inj (hs.symm.trans ht)
    · intro s hs hr
      rw [hup] at hs
      exact h.apart s.playerID (AList.lookup_isSome.mp (by simp [hs])) ((hrem _).mp hr)
  have hpatch : d.patch = c.patch := by
    funext p
    cases hp : c.players.lookup p with
    | some s =>
      obtain rfl := h.keyed p s hp
      rw [RoomDelta.patch_of_mem hproper ((hup s).mpr hp), Composition.patch, hp]
    | none =>
      rw [RoomDelta.patch_of_forall_ne, Composition.patch, hp]
      · simp only [hrem]
      · rintro t ht rfl
        rw [hup, hp] at ht
        cases ht
  obtain hhead | ⟨htick, hstatus⟩ := h.head
  · exact absurd (hhead.symm.trans h.version) hne
  · exact ⟨hproper, rfl, rfl, htick, hstatus, hpatch ▸ h.players⟩

theorem composeDeltas_leads {past : Room → Prop} {k : UInt64} {deltas : List RoomDelta} {e : Env} {roomID : UInt64}
    (hk : Chained past k deltas) (ha : past a) (h : composeDeltas e roomID deltas a.stateVersion k = some d) :
    ∃ b, past b ∧ b.stateVersion = k ∧ d.Leads a b := by
  unfold composeDeltas at h
  split at h
  · cases h
  · rename_i hcond
    have hlt : a.stateVersion < k := by
      rw [not_or, UInt64.not_le] at hcond
      exact hcond.1
    obtain ⟨b, hb, hc⟩ := addAll_leads hk ha (Composition.leads_refl a)
    simp only [ne_eq, ite_not, Option.ite_none_right_eq_some, Option.some.injEq] at h
    obtain ⟨hnext, rfl⟩ := h
    rw [hc.version] at hnext
    subst hnext
    exact ⟨b, hb, rfl, hc.delta (UInt64.ne_of_lt hlt) e roomID⟩

/-! ## Applying a delta -/

def Room.removeThenUpsert (r : Room) (d : RoomDelta) : Room :=
  { r with
    tick := d.tick, status := d.status, stateVersion := d.toStateVersion
    players := insertAll (·.playerID) (eraseAll r.players d.removedPlayerIDs) d.upsertPlayers }

def Room.upsertThenRemove (r : Room) (d : RoomDelta) : Room :=
  { r with
    tick := d.tick, status := d.status, stateVersion := d.toStateVersion
    players := eraseAll (insertAll (·.playerID) r.players d.upsertPlayers) d.removedPlayerIDs }

theorem lookup_removeThenUpsert {r : Room} (h : d.Proper) :
    (r.removeThenUpsert d).players.lookup = d.patch.apply r.players.lookup := by
  funext p
  by_cases hp : ∃ s ∈ d.upsertPlayers, s.playerID = p
  · obtain ⟨s, hs, rfl⟩ := hp
    rw [Patch.apply, RoomDelta.patch_of_mem h hs]
    exact lookup_insertAll_of_mem (fun t ht heq => h.once t ht s hs heq) hs
  · have hne : ∀ s ∈ d.upsertPlayers, s.playerID ≠ p := fun s hs heq => hp ⟨s, hs, heq⟩
    simp only [Room.removeThenUpsert, Patch.apply, RoomDelta.patch_of_forall_ne hne, lookup_insertAll_of_forall_ne hne,
      lookup_eraseAll]
    split <;> rfl

theorem lookup_upsertThenRemove {r : Room} (h : d.Proper) :
    (r.upsertThenRemove d).players.lookup = d.patch.apply r.players.lookup := by
  funext p
  by_cases hp : ∃ s ∈ d.upsertPlayers, s.playerID = p
  · obtain ⟨s, hs, rfl⟩ := hp
    simp only [Room.upsertThenRemove, lookup_eraseAll, h.apart s hs, if_false, Patch.apply, RoomDelta.patch_of_mem h hs]
    exact lookup_insertAll_of_mem (fun t ht heq => h.once t ht s hs heq) hs
  · have hne : ∀ s ∈ d.upsertPlayers, s.playerID ≠ p := fun s hs heq => hp ⟨s, hs, heq⟩
    simp only [Room.upsertThenRemove, Patch.apply, RoomDelta.patch_of_forall_ne hne, lookup_eraseAll,
      lookup_insertAll_of_forall_ne hne]
    split <;> rfl

def Rebuilds (d : RoomDelta) (a b : Room) : Prop := (a.removeThenUpsert d).Agrees b ∧ (a.upsertThenRemove d).Agrees b

theorem RoomDelta.Leads.rebuilds (h : d.Leads a b) (hid : a.id = b.id) : Rebuilds d a b :=
  ⟨⟨hid, h.tick, h.toVersion, h.status, (lookup_removeThenUpsert h.toProper).trans h.players⟩,
    ⟨hid, h.tick, h.toVersion, h.status, (lookup_upsertThenRemove h.toProper).trans h.players⟩⟩

end GameServer.Battle
