import GameServer.BattleDelta

/-!
# Deltas of a restore rebuild the room

A restore that answers with a delta read the room at one moment and the delta
buffer at a later one, while other calls went on changing the room. `Tracked`
is what holds while rooms are only created and mutated; `Frozen` is the part of
it, below the version the restore has read, that survives the rest of the
restore, including its own write of a room loaded from the repository.
-/

namespace GameServer.Battle

/-! ## Well-behaved calls -/

/-- A callback that leaves `ID` and `StateVersion` alone, each player under its
own `PlayerID`, and the whole room when it fails. -/
structure KeepsVersion (callback : Callback) : Prop where
  id : ∀ r, (callback r).1.id = r.id
  stateVersion : ∀ r, (callback r).1.stateVersion = r.stateVersion
  keyed : ∀ r, r.Keyed → (callback r).1.Keyed
  failed : ∀ r err, (callback r).2 = some err → (callback r).1 = r

/-- It only adds, updates or removes players. -/
structure PlayersOnly (callback : Callback) : Prop extends KeepsVersion callback where
  tick : ∀ r, (callback r).1.tick = r.tick
  status : ∀ r, (callback r).1.status = r.status

inductive Change
  | create (room : Room) (keyed : room.Keyed)
  | mutate (roomID : UInt64) (callback : Callback) (playersOnly : PlayersOnly callback)

def Change.call : Change → Call
  | .create room _ => .create room
  | .mutate roomID callback _ => .mutate roomID callback

def Tame : Cmd → Prop
  | .create room => room.Keyed
  | .mutate _ callback => KeepsVersion callback
  | _ => False

/-! ## Snapshots -/

def Stores (d : RoomSnapshotDocument) (room : Room) : Prop :=
  ∀ r, roomSnapshotDomainFromDocument d = .ok r → r.Agrees room

structure SnapshotOf (d : RoomSnapshotDocument) (room : Room) : Prop where
  roomID : d.roomID = room.id
  stateVersion : d.stateVersion = room.stateVersion
  stores : Stores d room
  lists : ∀ s ∈ d.players, s.playerID ∈ room.players

theorem foldlM_addPlayer_ok : ∀ {players : List PlayerState} {r r' : Room},
    players.foldlM Room.addPlayer r = .ok r' → r' = { r with players := insertAll (·.playerID) r.players players }
  | [], r, r', h => by
    cases h
    rfl
  | s :: players, r, r', h => by
    rw [List.foldlM_cons] at h
    obtain ⟨r₁, h₁, h₂⟩ := bind_eq_ok h
    have hr₁ : r₁ = { r with players := r.players.insert s.playerID s } := by
      obtain ⟨-, -, h₁⟩ := bind_eq_ok h₁
      split at h₁
      · cases h₁
      · cases h₁
        rfl
    rw [foldlM_addPlayer_ok h₂, hr₁]
    rfl

variable {d : RoomSnapshotDocument} {room : Room} {w w' : World} {e : Env} {v : UInt64} {V : World → Prop}

theorem decode_ok {r : Room} (h : roomSnapshotDomainFromDocument d = .ok r) :
    r = { id := d.roomID, tick := d.tick, stateVersion := d.stateVersion, status := ⟨d.status⟩,
          players := insertAll (·.playerID) ∅ d.players, updatedAt := d.updatedAt } := by
  obtain ⟨r₁, h₁, h⟩ := bind_eq_ok h
  obtain ⟨-, -, h⟩ := bind_eq_ok h
  cases h
  exact foldlM_addPlayer_ok h₁

theorem keyed_of_decode {r : Room} (h : roomSnapshotDomainFromDocument d = .ok r) :
    r.Keyed := by
  intro p s hp
  rw [decode_ok h] at hp
  rcases lookup_insertAll_eq_some hp with hp | hp
  · exact hp
  · simp at hp

theorem Room.Keyed.lookup_insertAll (hk : room.Keyed) {players : List PlayerState}
    (hmem : ∀ s, s ∈ players ↔ room.players.lookup s.playerID = some s) :
    (insertAll (·.playerID) ∅ players).lookup = room.players.lookup := by
  funext p
  cases hp : room.players.lookup p with
  | some s =>
    obtain rfl := hk p s hp
    refine lookup_insertAll_of_mem (fun t ht heq => ?_) ((hmem s).mpr hp)
    rw [hmem, heq, hp] at ht
    exact (Option.some.inj ht).symm
  | none =>
    refine (lookup_insertAll_of_forall_ne fun t ht heq => ?_).trans (AList.lookup_empty p)
    rw [hmem, heq, hp] at ht
    cases ht

theorem Room.Keyed.mem_shuffle_players (hk : room.Keyed) (order : List Nat) (s : PlayerState) :
    s ∈ (shuffle order room.players.entries).map (·.2) ↔ room.players.lookup s.playerID = some s := by
  simp only [List.mem_map, mem_shuffle]
  constructor
  · rintro ⟨⟨p, s'⟩, hs, rfl⟩
    have hp : room.players.lookup p = some s' := AList.mem_lookup_iff.mpr hs
    rwa [hk p s' hp]
  · intro hs
    exact ⟨⟨_, s⟩, AList.mem_lookup_iff.mp hs, rfl⟩

def storedDocument (e : Env) (room : Room) : RoomSnapshotDocument where
  roomID := room.id
  tick := room.tick
  stateVersion := room.stateVersion
  status := room.status.text
  players := (shuffle (e.order .players) room.players.entries).map (·.2)
  updatedAt := room.updatedAt / 1000000 * 1000000

theorem snapshotOf_storedDocument (e : Env) (hk : room.Keyed) : SnapshotOf (storedDocument e room) room := by
  have hmem := hk.mem_shuffle_players (e.order .players)
  refine ⟨rfl, rfl, fun r hr => ?_, fun s hs => AList.lookup_isSome.mp (by rw [(hmem s).mp hs]; rfl)⟩
  rw [decode_ok hr]
  exact ⟨rfl, rfl, rfl, rfl, hk.lookup_insertAll hmem⟩

theorem stateVersion_ne_zero (h : room.validate = .ok ()) : room.stateVersion ≠ 0 := by
  intro hzero
  simp [Room.validate, hzero, throw, throwThe, MonadExceptOf.throw, bind, Except.bind] at h

theorem save_ok (h : w.save e room = .ok w') :
    room.stateVersion ≠ 0 ∧ w' = { w with snapshots := w.snapshots.upsert (storedDocument e room) } := by
  obtain ⟨doc, hdoc, h⟩ := bind_eq_ok h
  obtain ⟨_, hv, hdoc⟩ := bind_eq_ok hdoc
  refine ⟨stateVersion_ne_zero hv, ?_⟩
  cases hdoc
  split at h
  · cases h
  · cases h
  · rename_i d _ hd
    cases h
    simp only [bsonDocument, Option.ite_none_right_eq_some, Option.some.injEq] at hd
    rw [← hd.2]
    rfl

/-! ## What a call does -/

theorem create_ok (h : w.create e room = .ok w') :
    room.id ∉ w.rooms ∧ room.stateVersion ≠ 0 ∧
      w' = { rooms := w.rooms.insert room.id room, deltas := w.deltas.insert room.id []
             snapshots := w.snapshots.upsert (storedDocument e room) } := by
  obtain ⟨-, -, h⟩ := bind_eq_ok h
  split at h
  · cases h
  · rename_i hmem
    obtain ⟨w₁, hsave, h⟩ := bind_eq_ok h
    obtain ⟨hne, rfl⟩ := save_ok hsave
    cases h
    exact ⟨hmem, hne, rfl⟩

theorem version_succ (h : v + 1 ≠ 0) : v < v + 1 := by
  have h' : (v + 1).toNat ≠ 0 := fun h0 => h (UInt64.toNat_inj.mp h0)
  rw [UInt64.lt_iff_toNat_lt, UInt64.toNat_add] at *
  have := v.toNat_lt
  simp only [UInt64.toNat_one] at *
  omega

theorem advanceTick_ok {r r' : Room} {now : Time} (h : r.advanceTick now = .ok r') :
    r'.id = r.id ∧ r'.stateVersion = r.stateVersion + 1 ∧ r'.players = r.players := by
  obtain ⟨-, -, h⟩ := bind_eq_ok h
  cases h
  exact ⟨rfl, rfl, rfl⟩

theorem mutate_inv {roomID : UInt64} {callback : Callback} {r : Except GoErr Unit}
    (h : w.mutate e roomID callback = (r, w')) :
    ((∃ err, r = .error err) ∧ w' = w) ∨ ∃ previous room, w.rooms.lookup roomID = some previous ∧
      ((∃ err, callback previous = (room, some err) ∧ r = .error err ∧ w' = { w with rooms := w.rooms.insert roomID room }) ∨
        ∃ next w₁, callback previous = (room, none) ∧ room.advanceTick e.now = .ok next ∧ w.save e next = .ok w₁ ∧
          r = .ok () ∧ w' = World.recordDelta { w₁ with rooms := w₁.rooms.insert roomID next } e previous next) := by
  unfold World.mutate at h
  split at h
  · cases h
    exact .inl ⟨⟨_, rfl⟩, rfl⟩
  cases hp : w.rooms.lookup roomID with
  | none =>
    rw [hp] at h
    cases h
    exact .inl ⟨⟨_, rfl⟩, rfl⟩
  | some previous =>
    rw [hp] at h
    rcases hcall : callback previous with ⟨room, _ | err⟩
    · simp only [hcall] at h
      cases hadv : room.advanceTick e.now with
      | error err =>
        rw [hadv] at h
        cases h
        exact .inl ⟨⟨_, rfl⟩, rfl⟩
      | ok next =>
        simp only [hadv] at h
        cases hsave : w.save e next with
        | error err =>
          rw [hsave] at h
          cases h
          exact .inl ⟨⟨_, rfl⟩, rfl⟩
        | ok w₁ =>
          simp only [hsave] at h
          cases h
          exact .inr ⟨previous, room, rfl, .inr ⟨next, w₁, hcall, hadv, hsave, rfl, rfl⟩⟩
    · simp only [hcall] at h
      cases h
      exact .inr ⟨previous, room, rfl, .inl ⟨err, hcall, rfl, rfl⟩⟩

theorem mutated_ok {w₁ : World} {callback : Callback} {previous next : Room} (hf : KeepsVersion callback)
    (hk : previous.Keyed) (hcall : callback previous = (room, none)) (hadv : room.advanceTick e.now = .ok next)
    (hsave : w.save e next = .ok w₁) :
    next.Keyed ∧ next.id = previous.id ∧ previous.stateVersion < next.stateVersion ∧
      ∃ d, SnapshotOf d next ∧ w₁ = { w with snapshots := w.snapshots.upsert d } := by
  have hsame : room = (callback previous).1 := by rw [hcall]
  obtain ⟨hid, hver, hplayers⟩ := advanceTick_ok hadv
  have hkeyed : next.Keyed := by
    intro p s hs
    rw [hplayers, hsame] at hs
    exact hf.keyed previous hk p s hs
  obtain ⟨hne, rfl⟩ := save_ok hsave
  refine ⟨hkeyed, ?_, ?_, _, snapshotOf_storedDocument e hkeyed, rfl⟩
  · rw [hid, hsame, hf.id]
  · rw [hsame, hf.stateVersion] at hver
    rw [hver] at hne ⊢
    exact version_succ hne

theorem mutate_cases {roomID : UInt64} {callback : Callback} {r : Except GoErr Unit} (hf : KeepsVersion callback)
    (hk : ∀ room, w.rooms.lookup roomID = some room → room.Keyed) (h : w.mutate e roomID callback = (r, w')) :
    ((∀ id, w'.rooms.lookup id = w.rooms.lookup id) ∧ w'.deltas = w.deltas ∧ w'.snapshots = w.snapshots) ∨
      ∃ previous room d, w.rooms.lookup roomID = some previous ∧ room.Keyed ∧ room.id = previous.id ∧
        previous.stateVersion < room.stateVersion ∧ SnapshotOf d room ∧
        w' = World.recordDelta { w with rooms := w.rooms.insert roomID room, snapshots := w.snapshots.upsert d } e
          previous room := by
  rcases mutate_inv h with ⟨-, rfl⟩ | ⟨previous, room, hp, ⟨err, hcall, -, rfl⟩ | ⟨next, w₁, hcall, hadv, hsave, -, rfl⟩⟩
  · exact .inl ⟨fun _ => rfl, rfl, rfl⟩
  · have hsame : room = previous := by
      have := hf.failed previous err (by rw [hcall])
      rwa [hcall] at this
    refine .inl ⟨fun id => ?_, rfl, rfl⟩
    by_cases hid : id = roomID
    · subst hid
      rw [AList.lookup_insert, hsame, hp]
    · rw [AList.lookup_insert_ne hid]
  · obtain ⟨hkeyed, hid, hlt, d, hd, rfl⟩ := mutated_ok hf (hk previous hp) hcall hadv hsave
    exact .inr ⟨previous, next, d, hp, hkeyed, hid, hlt, hd, rfl⟩

/-! ## Creating and mutating -/

def Had (V : World → Prop) (id : UInt64) (r : Room) : Prop := ∃ w, V w ∧ w.rooms.lookup id = some r

theorem had_or {id : UInt64} {r : Room} :
    Had (fun x => V x ∨ x = w) id r ↔ Had V id r ∨ w.rooms.lookup id = some r := by
  constructor
  · rintro ⟨x, hx | rfl, hr⟩
    · exact .inl ⟨x, hx, hr⟩
    · exact .inr hr
  · rintro (⟨x, hx, hr⟩ | hr)
    · exact ⟨x, .inl hx, hr⟩
    · exact ⟨w, .inr rfl, hr⟩

def World.buffer (w : World) (id : UInt64) : List RoomDelta := (w.deltas.lookup id).getD []

structure Tracked (V : World → Prop) (w : World) : Prop where
  now : V w
  own : ∀ id r, w.rooms.lookup id = some r → r.id = id ∧ r.Keyed
  ids : ∀ id r, Had V id r → r.id = id
  stored : ∀ id r, w.rooms.lookup id = some r → ∃ d ∈ w.snapshots, d.roomID = id ∧ Stores d r
  known : ∀ id r, Had V id r → ∃ c, w.rooms.lookup id = some c ∧ r.stateVersion ≤ c.stateVersion
  unique : ∀ id a b, Had V id a → Had V id b → a.stateVersion = b.stateVersion → a.Agrees b
  leads : ∀ id, ∀ d ∈ w.buffer id, ∃ a b, Had V id a ∧ Had V id b ∧ d.Leads a b ∧ a.stateVersion < b.stateVersion

theorem tracked_congr (h : Tracked V w) (hr : ∀ id, w'.rooms.lookup id = w.rooms.lookup id)
    (hd : w'.deltas = w.deltas) (hs : w'.snapshots = w.snapshots) : Tracked (fun x => V x ∨ x = w') w' := by
  have hhad : ∀ id r, Had (fun x => V x ∨ x = w') id r ↔ Had V id r := by
    intro id r
    rw [had_or, hr]
    exact ⟨fun h' => h'.elim (fun h' => h') fun h' => ⟨w, h.now, h'⟩, .inl⟩
  refine ⟨.inr rfl, ?_, ?_, ?_, ?_, ?_, ?_⟩
  · simp only [hr]
    exact h.own
  · simp only [hhad]
    exact h.ids
  · simp only [hr, hs]
    exact h.stored
  · simp only [hhad, hr]
    exact h.known
  · simp only [hhad]
    exact h.unique
  · simp only [hhad, World.buffer, hd]
    exact h.leads

theorem stored_upsert {Q : RoomSnapshotDocument → Room → Prop} {rooms : AList fun _ : UInt64 => Room}
    {snapshots : Coll roomSnapshotIndexes} {id : UInt64}
    (h : ∀ id r, rooms.lookup id = some r → ∃ d ∈ snapshots, d.roomID = id ∧ Q d r) (hid : d.roomID = id)
    (hd : Q d room) :
    ∀ id' r, (rooms.insert id room).lookup id' = some r → ∃ d' ∈ snapshots.upsert d, d'.roomID = id' ∧ Q d' r := by
  intro id' r hr
  by_cases heq : id' = id
  · subst heq
    rw [AList.lookup_insert, Option.some.injEq] at hr
    subst hr
    exact ⟨d, Coll.mem_upsert.mpr (.inl rfl), hid, hd⟩
  · rw [AList.lookup_insert_ne heq] at hr
    obtain ⟨d', hd', hid', hs'⟩ := h id' r hr
    refine ⟨d', Coll.mem_upsert.mpr (.inr ⟨hd', ?_⟩), hid', hs'⟩
    rw [← Bool.not_eq_true, roomSnapshotIndexes, Index.on_clash, hid, hid']
    exact Ne.symm heq

theorem lookup_insert_cases {rooms : AList fun _ : UInt64 => Room} {id id' : UInt64} {r : Room}
    (h : (rooms.insert id room).lookup id' = some r) : id' = id ∧ r = room ∨ id' ≠ id ∧ rooms.lookup id' = some r := by
  by_cases heq : id' = id
  · subst heq
    rw [AList.lookup_insert, Option.some.injEq] at h
    exact .inl ⟨rfl, h.symm⟩
  · rw [AList.lookup_insert_ne heq] at h
    exact .inr ⟨heq, h⟩

theorem tracked_put (h : Tracked V w) (hk : room.Keyed)
    (hnew : ∀ r, Had V room.id r → r.stateVersion < room.stateVersion)
    (hrooms : w'.rooms = w.rooms.insert room.id room)
    (hstored : ∀ id r, w'.rooms.lookup id = some r → ∃ d ∈ w'.snapshots, d.roomID = id ∧ Stores d r)
    (hbuf : ∀ id, ∀ d ∈ w'.buffer id, d ∈ w.buffer id ∨
      id = room.id ∧ ∃ a, Had V id a ∧ d.Leads a room ∧ a.stateVersion < room.stateVersion) :
    Tracked (fun x => V x ∨ x = w') w' := by
  have hroom : w'.rooms.lookup room.id = some room := by rw [hrooms, AList.lookup_insert]
  have hhad : ∀ id r, Had (fun x => V x ∨ x = w') id r → Had V id r ∨ id = room.id ∧ r = room := by
    intro id r hr
    rcases had_or.mp hr with hr | hr
    · exact .inl hr
    · rw [hrooms] at hr
      rcases lookup_insert_cases hr with hr | ⟨-, hr⟩
      · exact .inr hr
      · exact .inl ⟨w, h.now, hr⟩
  refine ⟨.inr rfl, ?_, ?_, hstored, ?_, ?_, ?_⟩
  · intro id r hr
    rw [hrooms] at hr
    rcases lookup_insert_cases hr with ⟨rfl, rfl⟩ | ⟨-, hr⟩
    · exact ⟨rfl, hk⟩
    · exact h.own id r hr
  · intro id r hr
    rcases hhad id r hr with hr | ⟨rfl, rfl⟩
    · exact h.ids id r hr
    · rfl
  · intro id r hr
    by_cases heq : id = room.id
    · subst heq
      refine ⟨room, hroom, ?_⟩
      rcases hhad _ r hr with hr | ⟨-, rfl⟩
      · exact UInt64.le_of_lt (hnew r hr)
      · exact UInt64.le_refl _
    · obtain hr | ⟨heq', -⟩ := hhad id r hr
      · rw [hrooms, AList.lookup_insert_ne heq]
        exact h.known id r hr
      · exact absurd heq' heq
  · intro id a b ha hb hab
    rcases hhad id a ha with ha | ⟨rfl, rfl⟩
    · rcases hhad id b hb with hb | ⟨rfl, rfl⟩
      · exact h.unique id a b ha hb hab
      · exact absurd hab (UInt64.ne_of_lt (hnew a ha))
    · rcases hhad _ b hb with hb | ⟨-, rfl⟩
      · exact absurd hab.symm (UInt64.ne_of_lt (hnew b hb))
      · exact .rfl
  · intro id d' hd'
    rcases hbuf id d' hd' with hd' | ⟨rfl, a, ha, hl, hlt⟩
    · obtain ⟨a, b, ha, hb, hl⟩ := h.leads id d' hd'
      exact ⟨a, b, had_or.mpr (.inl ha), had_or.mpr (.inl hb), hl⟩
    · exact ⟨a, room, had_or.mpr (.inl ha), had_or.mpr (.inr hroom), hl, hlt⟩

theorem tracked_create (h : Tracked V w) (hk : room.Keyed) (hc : w.create e room = .ok w') :
    Tracked (fun x => V x ∨ x = w') w' := by
  obtain ⟨hnew, -, rfl⟩ := create_ok hc
  have hd := snapshotOf_storedDocument e hk
  refine tracked_put h hk (fun r hr => ?_) rfl (stored_upsert h.stored hd.roomID hd.stores) fun id d' hd' => ?_
  · obtain ⟨c, hc, -⟩ := h.known _ _ hr
    exact absurd (AList.lookup_isSome.mp (by rw [hc]; rfl)) hnew
  · left
    by_cases heq : id = room.id
    · subst heq
      simp [World.buffer] at hd'
    · simpa [World.buffer, AList.lookup_insert_ne heq] using hd'

theorem mem_buffer_recordDelta {previous current : Room} {id : UInt64} {d : RoomDelta}
    (h : d ∈ (w.recordDelta e previous current).buffer id) :
    d ∈ w.buffer id ∨ id = current.id ∧ d = roomDelta e previous current := by
  by_cases heq : id = current.id
  · subst heq
    simp only [World.recordDelta, World.buffer, AList.lookup_insert, Option.getD_some] at h
    rcases List.mem_append.mp (List.mem_of_mem_drop h) with h | h
    · exact .inl h
    · exact .inr ⟨rfl, List.mem_singleton.mp h⟩
  · simp only [World.recordDelta, World.buffer, AList.lookup_insert_ne heq] at h
    exact .inl h

theorem tracked_mutate {roomID : UInt64} {callback : Callback} {r : Except GoErr Unit} (h : Tracked V w)
    (hf : KeepsVersion callback) (hm : w.mutate e roomID callback = (r, w')) : Tracked (fun x => V x ∨ x = w') w' := by
  rcases mutate_cases hf (fun room hr => (h.own _ _ hr).2) hm with
    ⟨hr, hd, hs⟩ | ⟨previous, room, d, hp, hk, hid, hlt, hd, rfl⟩
  · exact tracked_congr h hr hd hs
  · obtain rfl : room.id = roomID := hid.trans (h.own _ _ hp).1
    refine tracked_put h hk (fun r hr => ?_) rfl (stored_upsert h.stored hd.roomID hd.stores) fun id d' hd' => ?_
    · obtain ⟨c, hc, hle⟩ := h.known _ _ hr
      obtain rfl := Option.some.inj (hp.symm.trans hc)
      exact UInt64.lt_of_le_of_lt hle hlt
    · rcases mem_buffer_recordDelta hd' with hd' | ⟨rfl, rfl⟩
      · exact .inl hd'
      · exact .inr ⟨rfl, previous, ⟨w, h.now, hp⟩, roomDelta_leads e previous hk, hlt⟩

theorem tracked_exec {i : Nat} {c : Cmd} {r : Ans c} (h : Tracked V w) (hc : Tame c)
    (hx : exec i e w c = some (r, w')) : Tracked (fun x => V x ∨ x = w') w' := by
  have hx := Option.some.inj hx
  cases c with
  | create room =>
    cases hcr : w.create e room with
    | error err =>
      simp only [World.answer, hcr] at hx
      cases hx
      exact tracked_congr h (fun _ => rfl) rfl rfl
    | ok w₁ =>
      simp only [World.answer, hcr] at hx
      cases hx
      exact tracked_create h hc hcr
  | mutate roomID callback => exact tracked_mutate h hc hx
  | _ => exact hc.elim

/-! ## Below the version a restore has read -/

structure Frozen (V : World → Prop) (w : World) (room : Room) : Prop where
  now : V w
  own : ∀ id r, w.rooms.lookup id = some r → r.id = id ∧ r.Keyed
  ids : ∀ r, Had V room.id r → r.id = room.id
  keyed : room.Keyed
  newer : ∀ r, w.rooms.lookup room.id = some r → room.stateVersion ≤ r.stateVersion
  same : ∀ r, Had V room.id r → r.stateVersion = room.stateVersion → r.Agrees room
  chained : Chained (Had V room.id) room.stateVersion (w.buffer room.id)

theorem frozen_of_tracked {r : Room} (h : Tracked V w) (hr : w.rooms.lookup r.id = some r) (hk : room.Keyed)
    (ha : room.Agrees r) : Frozen V w room := by
  have hhad : Had V room.id r := ⟨w, h.now, ha.id ▸ hr⟩
  refine ⟨h.now, h.own, h.ids _, hk, ?_, ?_, ?_, ?_⟩
  · intro r' hr'
    rw [ha.id, hr] at hr'
    obtain rfl := Option.some.inj hr'
    exact ha.stateVersion ▸ UInt64.le_refl _
  · intro r' hr' hv
    exact (h.unique _ r' r hr' hhad (hv.trans ha.stateVersion)).trans ha.symm
  · intro d hd _
    exact h.leads _ d hd
  · intro a b ha' hb _ hab
    exact h.unique _ a b ha' hb hab

theorem frozen_of_absent (h : Tracked V w) (hr : w.rooms.lookup room.id = none) (hk : room.Keyed) :
    Frozen V w room := by
  have hnone : ∀ r, ¬ Had V room.id r := by
    intro r hhad
    obtain ⟨c, hc, -⟩ := h.known _ _ hhad
    rw [hr] at hc
    cases hc
  refine ⟨h.now, h.own, h.ids _, hk, ?_, fun r hr' => absurd hr' (hnone r), ?_, fun a _ ha => absurd ha (hnone a)⟩
  · intro r hr'
    rw [hr] at hr'
    cases hr'
  · intro d hd
    obtain ⟨a, -, ha, -⟩ := h.leads _ d hd
    exact absurd ha (hnone a)

theorem frozen_step (h : Frozen V w room) (hown : ∀ id r, w'.rooms.lookup id = some r → r.id = id ∧ r.Keyed)
    (hnew : ∀ r, w'.rooms.lookup room.id = some r →
      w.rooms.lookup room.id = some r ∨ r = room ∨ room.stateVersion < r.stateVersion)
    (hbuf : ∀ d ∈ w'.buffer room.id, d ∈ w.buffer room.id ∨ room.stateVersion < d.toStateVersion) :
    Frozen (fun x => V x ∨ x = w') w' room := by
  have hhad : ∀ r, Had (fun x => V x ∨ x = w') room.id r →
      Had V room.id r ∨ r = room ∨ room.stateVersion < r.stateVersion := by
    intro r hr
    rcases had_or.mp hr with hr | hr
    · exact .inl hr
    · rcases hnew r hr with hr | hr
      · exact .inl ⟨w, h.now, hr⟩
      · exact .inr hr
  have hsame : ∀ r, Had (fun x => V x ∨ x = w') room.id r → r.stateVersion = room.stateVersion → r.Agrees room := by
    intro r hr hv
    rcases hhad r hr with hr | rfl | hlt
    · exact h.same r hr hv
    · exact .rfl
    · exact absurd hv.symm (UInt64.ne_of_lt hlt)
  refine ⟨.inr rfl, hown, ?_, h.keyed, ?_, hsame, ?_, ?_⟩
  · intro r hr
    rcases had_or.mp hr with hr | hr
    · exact h.ids r hr
    · exact (hown _ r hr).1
  · intro r hr
    rcases hnew r hr with hr | rfl | hlt
    · exact h.newer r hr
    · exact UInt64.le_refl _
    · exact UInt64.le_of_lt hlt
  · intro d hd hle
    rcases hbuf d hd with hd | hlt
    · obtain ⟨a, b, ha, hb, hl⟩ := h.chained.leads d hd hle
      exact ⟨a, b, had_or.mpr (.inl ha), had_or.mpr (.inl hb), hl⟩
    · exact absurd hle (UInt64.not_le.mpr hlt)
  · intro a b ha hb hle hab
    by_cases hv : a.stateVersion = room.stateVersion
    · exact (hsame a ha hv).trans (hsame b hb (hab.symm.trans hv)).symm
    · have hlt : a.stateVersion < room.stateVersion := UInt64.lt_of_le_of_ne hle hv
      have hpast : ∀ r, Had (fun x => V x ∨ x = w') room.id r → r.stateVersion = a.stateVersion → Had V room.id r := by
        intro r hr hra
        rcases hhad r hr with hr | rfl | hgt
        · exact hr
        · exact absurd hra.symm hv
        · exact absurd (hra ▸ hgt) (UInt64.not_lt.mpr hle)
      exact h.chained.unique a b (hpast a ha rfl) (hpast b hb hab.symm) hle hab

def Mutates : Cmd → Prop
  | .mutate _ callback => KeepsVersion callback
  | _ => False

theorem frozen_exec {i : Nat} {c : Cmd} {r : Ans c} (h : Frozen V w room) (hc : Mutates c)
    (hx : exec i e w c = some (r, w')) :
    Frozen (fun x => V x ∨ x = w') w' room := by
  cases c with
  | mutate roomID callback =>
    rcases mutate_cases hc (fun room hr => (h.own _ _ hr).2) (Option.some.inj hx) with
      ⟨hr, hd, -⟩ | ⟨previous, current, d, hp, hk, hid, hlt, -, rfl⟩
    · refine frozen_step h ?_ (fun r hr' => .inl (hr _ ▸ hr')) (fun d hd' => ?_)
      · simp only [hr]
        exact h.own
      · simp only [World.buffer, hd] at hd'
        exact .inl hd'
    · obtain rfl : current.id = roomID := hid.trans (h.own _ _ hp).1
      refine frozen_step h ?_ (fun r hr => ?_) (fun d' hd' => ?_)
      · intro id r hr
        rcases lookup_insert_cases hr with ⟨rfl, rfl⟩ | ⟨-, hr⟩
        · exact ⟨rfl, hk⟩
        · exact h.own id r hr
      · rcases lookup_insert_cases hr with ⟨heq, rfl⟩ | ⟨-, hr⟩
        · rw [← heq] at hp
          exact .inr (.inr (UInt64.lt_of_le_of_lt (h.newer _ hp) hlt))
        · exact .inl hr
      · rcases mem_buffer_recordDelta hd' with hd' | ⟨heq, rfl⟩
        · exact .inl hd'
        · rw [← heq] at hp
          exact .inr (UInt64.lt_of_le_of_lt (h.newer _ hp) hlt)
  | _ => exact hc.elim

theorem frozen_load (h : Frozen V w room) :
    Frozen (fun x => V x ∨ x = { w with rooms := w.rooms.insert room.id room })
      { w with rooms := w.rooms.insert room.id room } room := by
  refine frozen_step h ?_ (fun r hr => ?_) (fun d hd => .inl hd)
  · intro id r hr
    rcases lookup_insert_cases hr with ⟨rfl, rfl⟩ | ⟨-, hr⟩
    · exact ⟨rfl, h.keyed⟩
    · exact h.own id r hr
  · rcases lookup_insert_cases hr with ⟨-, rfl⟩ | ⟨hne, -⟩
    · exact .inr (.inl rfl)
    · exact absurd rfl hne

theorem frozen_read (h : Frozen V w room) :
    Frozen (fun x => V x ∨ x = w) w room :=
  frozen_step h h.own (fun _ => .inl) (fun _ => .inl)

theorem frozen_scan {playerID : String} (h : Tracked V w) (hs : w.scan e playerID = some room) : Frozen V w room := by
  obtain ⟨⟨id, r⟩, hf, rfl⟩ := Option.map_eq_some_iff.mp hs
  have hr : w.rooms.lookup id = some r := AList.mem_lookup_iff.mpr (mem_shuffle.mp (List.mem_of_find?_eq_some hf))
  obtain ⟨rfl, hk⟩ := h.own id r hr
  exact frozen_of_tracked h hr hk .rfl

theorem frozen_find {playerID : String} (h : Tracked V w) (hf : w.findByPlayerID e playerID = .ok room) :
    Frozen V w room := by
  unfold World.findByPlayerID at hf
  split at hf
  · cases hf
  split at hf
  · cases hf
  simp only at hf
  split at hf
  · cases hf
  · rename_i d hd
    have hmem : d ∈ w.snapshots := by
      have := List.argmax_mem hd
      exact mem_shuffle.mp (List.mem_of_mem_filter this)
    have hk := keyed_of_decode hf
    have hid : room.id = d.roomID := by rw [decode_ok hf]
    cases hr : w.rooms.lookup room.id with
    | none => exact frozen_of_absent h hr hk
    | some r =>
      obtain ⟨d', hd', hid', hs⟩ := h.stored _ r hr
      obtain rfl : d = d' := Coll.eq_of_clash hmem hd' (by simp [roomSnapshotIndexes, hid', hid])
      have hown := (h.own _ _ hr).1
      exact frozen_of_tracked h (hown ▸ hr) hk (hs room hf)

/-! ## The restore -/

def afterFind (v : UInt64) : Except GoErr Room → Handler
  | .error err => .ret (.error err)
  | .ok room => .call (.load room) fun _ => answerSince v true room

def afterScan (playerID : String) (v : UInt64) : Option Room → Handler
  | some room => answerSince v true room
  | none => .call (.findByPlayerID playerID) (afterFind v)

theorem restoreByPlayerIDSince_eq {playerID : String} (h : playerID ≠ "") (v : UInt64) :
    restoreByPlayerIDSince playerID v true = .call (.scan playerID) (afterScan playerID v) := by
  simp only [restoreByPlayerIDSince, restoreByPlayerID, h, if_false, perform, Prog.perform_bind, Prog.call_bind]
  congr 1
  funext r
  cases r with
  | some room => rfl
  | none =>
    simp only [afterScan, Prog.call_bind]
    congr 1
    funext r
    cases r <;> rfl

def afterDeltas (v : UInt64) (room : Room) (r : List RoomDelta × Env) : Handler :=
  match composeDeltas r.2 room.id r.1 v room.stateVersion with
  | some delta => .ret (.ok (.restored { room, mode := .delta, baseStateVersion := v, delta := some delta }))
  | none => .ret (.ok (.restored { room, mode := .full }))

theorem answerSince_eq (h : v < room.stateVersion) :
    answerSince v true room = .call (.deltas room.id) (afterDeltas v room) := by
  have hne : v ≠ room.stateVersion := UInt64.ne_of_lt h
  simp only [answerSince, hne, if_false, h, and_self, if_true, perform, Prog.perform_bind]
  congr 1
  funext r
  unfold afterDeltas
  cases composeDeltas r.2 room.id r.1 v room.stateVersion <;> rfl

theorem mode_of_ret_eq_answerSince {result : RestoreResult}
    (h : .ret (.ok (.restored result)) = answerSince v true room) : result.mode ≠ .delta := by
  by_cases hlt : v < room.stateVersion
  · rw [answerSince_eq hlt] at h
    cases h
  · unfold answerSince at h
    split at h
    · cases h
      exact nofun
    · simp only [hlt, and_false, if_false] at h
      cases h
      exact nofun

def Settled (v : UInt64) (V : World → Prop) (w : World) (res : Except GoErr Reply) : Prop :=
  ∀ result, res = .ok (.restored result) → result.mode = .delta →
    Frozen V w result.room ∧ v < result.room.stateVersion ∧ ∃ d, result.delta = some d ∧
      ∀ old, Had V result.room.id old → old.stateVersion = v → Rebuilds d old result.room

def Progress (playerID : String) (v : UInt64) (V : World → Prop) (p : Handler) (w : World) : Prop :=
  (Tracked V w ∧ (p = restoreByPlayerIDSince playerID v true ∨ p = .call (.findByPlayerID playerID) (afterFind v))) ∨
    (∃ room, Frozen V w room ∧ (p = .call (.load room) (fun _ => answerSince v true room) ∨ p = answerSince v true room)) ∨
    ∃ res, Settled v V w res ∧ p = .ret res

theorem settled_exec {res : Except GoErr Reply} (h : Settled v V w res)
    (hf : ∀ room, Frozen V w room → Frozen (fun x => V x ∨ x = w') w' room) :
    Settled v (fun x => V x ∨ x = w') w' res := by
  intro result hres hmode
  obtain ⟨hfrozen, hlt, d, hd, hold⟩ := h result hres hmode
  have hfrozen' := hf _ hfrozen
  refine ⟨hfrozen', hlt, d, hd, fun old hhad hv => ?_⟩
  rcases had_or.mp hhad with hhad | hhad
  · exact hold old hhad hv
  · have := hfrozen'.newer old hhad
    rw [hv] at this
    exact absurd hlt (UInt64.not_lt.mpr this)

theorem progress_other {playerID : String} {p : Handler} {j : Nat} {c : Cmd} {r : Ans c}
    (h : Progress playerID v V p w) (hc : Mutates c) (hx : exec j e w c = some (r, w')) :
    Progress playerID v (fun x => V x ∨ x = w') p w' := by
  rcases h with ⟨ht, hp⟩ | ⟨room, hf, hp⟩ | ⟨res, hs, hp⟩
  · refine .inl ⟨tracked_exec ht ?_ hx, hp⟩
    cases c with
    | mutate roomID callback => exact hc
    | _ => exact hc.elim
  · exact .inr (.inl ⟨room, frozen_exec hf hc hx, hp⟩)
  · exact .inr (.inr ⟨res, settled_exec hs fun room hf => frozen_exec hf hc hx, hp⟩)

theorem settled_delta {d : RoomDelta} (hf : Frozen V w room) (hlt : v < room.stateVersion)
    (hd : composeDeltas e room.id (w.buffer room.id) v room.stateVersion = some d) :
    Settled v V w (.ok (.restored { room, mode := .delta, baseStateVersion := v, delta := some d })) := by
  intro result hres _
  cases hres
  refine ⟨hf, hlt, d, rfl, fun old hhad hv => ?_⟩
  subst hv
  obtain ⟨b, hb, hbv, hl⟩ := composeDeltas_leads hf.chained hhad hd
  have hsame := hf.same b hb hbv
  have hl' : d.Leads old room :=
    ⟨hl.toProper, hl.fromVersion, hl.toVersion.trans hsame.stateVersion, hl.tick.trans hsame.tick,
      hl.status.trans hsame.status, hl.players.trans hsame.players⟩
  exact hl'.rebuilds (hf.ids old hhad)

theorem progress_mine {playerID : String} {i : Nat} {c : Cmd} {k : Ans c → Handler} {r : Ans c}
    (h : Progress playerID v V (.call c k) w) (hx : exec i e w c = some (r, w')) :
    Progress playerID v (fun x => V x ∨ x = w') (k r) w' := by
  have hx := Option.some.inj hx
  rcases h with ⟨ht, hp | hp⟩ | ⟨room, hf, hp | hp⟩ | ⟨res, -, hp⟩
  · by_cases hpid : playerID = ""
    · simp [restoreByPlayerIDSince, restoreByPlayerID, hpid] at hp
    rw [restoreByPlayerIDSince_eq hpid] at hp
    cases hp
    obtain ⟨hr, rfl⟩ := Prod.mk.inj hx
    cases r with
    | some room => exact .inr (.inl ⟨room, frozen_read (frozen_scan ht hr), .inr rfl⟩)
    | none => exact .inl ⟨tracked_congr ht (fun _ => rfl) rfl rfl, .inr rfl⟩
  · cases hp
    obtain ⟨hr, rfl⟩ := Prod.mk.inj hx
    cases r with
    | error err => exact .inr (.inr ⟨.error err, fun _ h => (nomatch h), rfl⟩)
    | ok room => exact .inr (.inl ⟨room, frozen_read (frozen_find ht hr), .inl rfl⟩)
  · cases hp
    obtain ⟨-, rfl⟩ := Prod.mk.inj hx
    exact .inr (.inl ⟨room, frozen_load hf, .inr rfl⟩)
  · by_cases hlt : v < room.stateVersion
    · rw [answerSince_eq hlt] at hp
      cases hp
      obtain ⟨rfl, rfl⟩ := Prod.mk.inj hx
      refine .inr (.inr ?_)
      unfold afterDeltas
      split
      · rename_i d hd
        exact ⟨_, settled_delta (frozen_read hf) hlt hd, rfl⟩
      · refine ⟨_, fun result hres hmode => ?_, rfl⟩
        cases hres
        cases hmode
    · unfold answerSince at hp
      split at hp
      · cases hp
      · simp only [hlt, and_false, if_false] at hp
        cases hp
  · cases hp

/-! ## Every run -/

def Change.isCreate : Change → Bool
  | .create _ _ => true
  | .mutate _ _ _ => false

def Change.Issues : Change → Cmd → Prop
  | .create _ _, c => Tame c
  | .mutate _ _ _, c => Mutates c

theorem Change.issues_handler (change : Change) : change.call.handler.Uses change.Issues := by
  cases change with
  | create room hk => exact ⟨hk, fun _ => trivial⟩
  | mutate roomID callback hf => exact ⟨hf.toKeepsVersion, fun _ => trivial⟩

theorem Change.Issues.tame {change : Change} {c : Cmd} (h : change.Issues c) : Tame c := by
  cases change with
  | create room hk => exact h
  | mutate roomID callback hf =>
    cases c with
    | mutate _ _ => exact h
    | _ => exact h.elim

def restoring (snapshots : Coll roomSnapshotIndexes) (playerID : String) (v : UInt64) (changes : List Change) : State :=
  State.init snapshots (.restore playerID v true :: changes.map Change.call)

theorem along_changes (snapshots : Coll roomSnapshotIndexes) (playerID : String) (v : UInt64) (changes : List Change)
    (before sched : List (Nat × Env)) :
    Pool.Along exec (Pool.Issues fun i _ _ c => ∀ j, i = j + 1 → ∃ change, changes[j]? = some change ∧ change.Issues c)
      (Pool.run exec (restoring snapshots playerID v changes) before) sched := by
  refine Pool.along_uses sched (Pool.uses_run before fun i p hp => ?_)
  cases i with
  | zero => exact (Prog.uses_true p).mono fun _ _ j hj => nomatch hj
  | succ j =>
    have hp' : ((changes.map Change.call).map Call.handler)[j]? = some p := hp
    rw [List.getElem?_map, List.getElem?_map, Option.map_map, Option.map_eq_some_iff] at hp'
    obtain ⟨change, hchange, rfl⟩ := hp'
    refine change.issues_handler.mono fun c hc j' hj => ⟨change, ?_, hc⟩
    obtain rfl := Nat.succ.inj hj
    exact hchange

theorem tracked_start (snapshots : Coll roomSnapshotIndexes) (playerID : String) (v : UInt64) (changes : List Change) :
    Tracked (· = (restoring snapshots playerID v changes).world) (restoring snapshots playerID v changes).world := by
  have hempty : ∀ id r, ¬ (restoring snapshots playerID v changes).world.rooms.lookup id = some r := by
    intro id r h
    cases h
  have hnone : ∀ id r, ¬ Had (· = (restoring snapshots playerID v changes).world) id r := by
    rintro id r ⟨_, rfl, h⟩
    exact hempty id r h
  refine ⟨rfl, fun id r h => absurd h (hempty id r), fun id r h => absurd h (hnone id r),
    fun id r h => absurd h (hempty id r), fun id r h => absurd h (hnone id r), fun id a _ h => absurd h (hnone id a), ?_⟩
  intro id d hd
  cases hd

/-- A restore that answers with a delta: applied to the room as it was at the
version the client named, in either order, the delta gives the room returned. -/
theorem delta_rebuilds_room (snapshots : Coll roomSnapshotIndexes) (playerID : String) (v : UInt64)
    (changes : List Change) (before during : List (Nat × Env)) (hbefore : ∀ a ∈ before, a.1 ≠ 0)
    (hduring : ∀ j e change, (j + 1, e) ∈ during → changes[j]? = some change → change.isCreate = false) :
    let s := restoring snapshots playerID v changes
    ∀ result, (Pool.run exec s (before ++ during)).answer 0 = some (.ok (.restored result)) → result.mode = .delta →
      ∃ d, result.delta = some d ∧
        ∀ w ∈ Pool.visited exec s (before ++ during), ∀ old, w.rooms.lookup result.room.id = some old →
          old.stateVersion = v → Rebuilds d old result.room := by
  intro s result hres hmode
  -- rooms are created and mutated, the restore has not started
  have hG₁ : Pool.Along exec (Pool.Issues fun i _ _ c => i ≠ 0 ∧ Tame c) s before := by
    have h₁ := along_changes snapshots playerID v changes [] before
    have h₂ := Pool.along_of_mem exec (P := fun _ a => a.1 ≠ 0) before s fun _ a ha => hbefore a ha
    refine (h₁.and h₂).mono fun _ a h c k hp => ⟨h.2, ?_⟩
    obtain ⟨j, hj⟩ := Nat.exists_eq_succ_of_ne_zero h.2
    obtain ⟨change, -, hc⟩ := h.1 c k hp j hj
    exact hc.tame
  obtain ⟨p₁, hp₁, ht, rfl⟩ := Pool.client_run (i := 0)
    (I := fun V p w => Tracked V w ∧ p = restoreByPlayerIDSince playerID v true)
    (fun _ _ _ _ _ _ _ _ hG _ => absurd rfl hG.1) (fun _ _ _ _ _ _ _ _ _ h hG hx => ⟨tracked_exec h.1 hG.2 hx, h.2⟩)
    before (s := s) (V := (· = s.world)) rfl rfl ⟨tracked_start snapshots playerID v changes, rfl⟩ hG₁
  -- the restore runs among mutations
  have hG₂ : Pool.Along exec (Pool.Issues fun i _ _ c => i = 0 ∨ Mutates c) (Pool.run exec s before) during := by
    have h₁ := along_changes snapshots playerID v changes before during
    have h₂ := Pool.along_of_mem exec (P := fun _ a => a ∈ during) during (Pool.run exec s before) fun _ _ ha => ha
    refine (h₁.and h₂).mono fun _ a h c k hp => ?_
    rcases a with ⟨_ | j, e⟩
    · exact .inl rfl
    · obtain ⟨change, hchange, hc⟩ := h.1 c k hp j rfl
      cases change with
      | create room hk => exact nomatch hduring j e _ h.2 hchange
      | mutate roomID callback hf => exact .inr hc
  obtain ⟨p₂, hp₂, hprogress⟩ := Pool.client_run (i := 0) (I := Progress playerID v)
    (fun _ _ _ _ _ _ _ h _ hx => progress_mine h hx)
    (fun _ _ _ _ _ _ _ _ hj h hG hx => progress_other h (hG.resolve_left hj) hx)
    during hp₁ (.inr (Pool.run_mem_visited exec before s)) (.inl ⟨ht, .inl rfl⟩) hG₂
  rw [← Pool.run_append, Pool.answer_eq_some hres, Option.some.injEq] at hp₂
  subst hp₂
  rcases hprogress with ⟨-, hp | hp⟩ | ⟨room, -, hp | hp⟩ | ⟨res, hsettled, hp⟩
  · by_cases hpid : playerID = ""
    · simp [restoreByPlayerIDSince, restoreByPlayerID, hpid] at hp
    · rw [restoreByPlayerIDSince_eq hpid] at hp
      cases hp
  · cases hp
  · cases hp
  · exact absurd hmode (mode_of_ret_eq_answerSince hp)
  · cases hp
    obtain ⟨-, -, d, hd, hold⟩ := hsettled result rfl hmode
    refine ⟨d, hd, fun w hw old hroom hv => hold old ⟨w, ?_, hroom⟩ hv⟩
    rcases (Pool.mem_visited_append exec before during s).mp hw with hw | hw
    · exact .inl (.inr hw)
    · exact .inr hw

def putPlayer (player : PlayerState) : Callback :=
  fun r => ({ r with players := r.players.insert player.playerID player }, none)

theorem putPlayer_playersOnly (player : PlayerState) : PlayersOnly (putPlayer player) := by
  refine ⟨⟨fun _ => rfl, fun _ => rfl, fun r hr p s hs => ?_, fun _ _ h => (nomatch h)⟩, fun _ => rfl, fun _ => rfl⟩
  by_cases hp : p = player.playerID
  · subst hp
    rw [putPlayer, AList.lookup_insert, Option.some.injEq] at hs
    rw [hs]
  · rw [putPlayer, AList.lookup_insert_ne hp] at hs
    exact hr p s hs

def player1 (hp : Int32) : PlayerState := ⟨"player-1", hp, 0, 0⟩

def room102 : Room := ⟨102, 0, 1, .created, (∅ : Players).insert "player-1" (player1 100), 1⟩

theorem room102_keyed : room102.Keyed := by
  intro p s hs
  by_cases hp : p = "player-1"
  · subst hp
    rw [room102, AList.lookup_insert, Option.some.injEq] at hs
    rw [← hs]
    rfl
  · rw [room102, AList.lookup_insert_ne hp] at hs
    cases hs

def twoHits : List Change :=
  [.create room102 room102_keyed, .mutate 102 (putPlayer (player1 90)) (putPlayer_playersOnly _),
    .mutate 102 (putPlayer (player1 80)) (putPlayer_playersOnly _)]

theorem delta_rebuilds_room_between_hits :
    ∃ result d, (Pool.run exec (restoring .empty "player-1" 1 twoHits)
        (Pool.inOrder [1, 2] ++ Pool.inOrder [0, 3, 0])).answer 0 = some (.ok (.restored result)) ∧
      result.delta = some d ∧ result.room.stateVersion = 2 ∧ Rebuilds d room102 result.room := by
  let d : RoomDelta := ⟨102, 1, 2, 1, .running, [player1 90], []⟩
  let room : Room := { room102 with
    tick := 1, stateVersion := 2, status := .running, players := (∅ : Players).insert "player-1" (player1 90) }
  have hres : (Pool.run exec (restoring .empty "player-1" 1 twoHits)
      (Pool.inOrder [1, 2] ++ Pool.inOrder [0, 3, 0])).answer 0 =
        some (.ok (.restored { room, mode := .delta, baseStateVersion := 1, delta := some d })) := by rfl
  have hduring : ∀ j (e : Env) change, (j + 1, e) ∈ Pool.inOrder [0, 3, 0] → twoHits[j]? = some change →
      change.isCreate = false := by
    intro j e change hmem hchange
    obtain ⟨i, hi, heq⟩ := List.mem_map.mp hmem
    have hj : j = 2 := by
      have : i = j + 1 := congrArg Prod.fst heq
      simp at hi
      omega
    subst hj
    cases hchange
    rfl
  have hpast : ∃ w ∈ Pool.visited exec (restoring .empty "player-1" 1 twoHits)
      (Pool.inOrder [1, 2] ++ Pool.inOrder [0, 3, 0]), w.rooms.lookup 102 = some room102 :=
    ⟨_, List.mem_cons_of_mem _ (List.mem_cons_self ..), rfl⟩
  obtain ⟨d', hd', hold⟩ := delta_rebuilds_room .empty "player-1" 1 twoHits (Pool.inOrder [1, 2])
    (Pool.inOrder [0, 3, 0]) (by decide) hduring _ hres rfl
  cases hd'
  obtain ⟨w, hw, hroom⟩ := hpast
  exact ⟨_, d, hres, rfl, rfl, hold w hw room102 hroom rfl⟩

end GameServer.Battle
