import GameServer.RoomRestarts

/-!
# What a mutation leaves behind

A snapshot lists the players without the keys they are stored under, so it reads
back as the room exactly if each player is stored under its own `PlayerID`.
`Mutate` puts the room back after a failed `AdvanceTick` or `Save`, but not after
a failed callback, and `AdvanceTick` sets the status to running whatever the
callback has set it to.
-/

namespace GameServer.Battle

/-! ## Reading a snapshot back -/

structure Room.Same (a b : Room) : Prop extends a.Agrees b where
  updatedAt : a.updatedAt = b.updatedAt

theorem forM_eq_ok {ε α : Type} {f : α → Except ε Unit} {l : List α} : l.forM f = .ok () ↔ ∀ x ∈ l, f x = .ok () := by
  induction l with
  | nil => simp [pure, Except.pure]
  | cons x l ih =>
    show (f x >>= fun _ => l.forM f) = .ok () ↔ _
    rw [List.forall_mem_cons, ← ih]
    cases f x <;> simp [bind, Except.bind]

theorem validate_eq_ok {room : Room} : room.validate = .ok () ↔
    ¬(room.id = 0 ∨ room.stateVersion = 0 ∨ room.status.text = "" ∨ room.updatedAt = 0) ∧
      ∀ p s, room.players.lookup p = some s → s.validate = .ok () := by
  have hplayers : (room.players.entries.forM fun e => e.2.validate) = .ok () ↔
      ∀ p s, room.players.lookup p = some s → s.validate = .ok () := by
    rw [forM_eq_ok]
    constructor
    · intro h p s hs
      exact h ⟨p, s⟩ (AList.mem_lookup_iff.mp hs)
    · intro h e he
      exact h e.1 e.2 (AList.mem_lookup_iff.mpr he)
  rw [← hplayers]
  unfold Room.validate
  by_cases hbad : room.id = 0 ∨ room.stateVersion = 0 ∨ room.status.text = "" ∨ room.updatedAt = 0
  · simp [hbad, throw, throwThe, MonadExceptOf.throw, bind, Except.bind]
  · simp [hbad]

theorem Room.Same.validate {a b : Room} (h : a.Same b) (hb : b.validate = .ok ()) : a.validate = .ok () := by
  rw [validate_eq_ok] at hb ⊢
  rw [h.id, h.stateVersion, h.status, h.updatedAt]
  exact ⟨hb.1, fun p s hs => hb.2 p s (congrFun h.players p ▸ hs)⟩

theorem foldlM_addPlayer : ∀ {players : List PlayerState} {r : Room}, (∀ s ∈ players, s.validate = .ok ()) →
    (players.map (·.playerID)).Nodup → (∀ s ∈ players, s.playerID ∉ r.players) →
      players.foldlM Room.addPlayer r = .ok { r with players := insertAll (·.playerID) r.players players }
  | [], _, _, _, _ => rfl
  | s :: players, r, hvalid, hnodup, hnew => by
    rw [List.forall_mem_cons] at hvalid hnew
    rw [List.map_cons, List.nodup_cons] at hnodup
    have hadd : r.addPlayer s = .ok { r with players := r.players.insert s.playerID s } := by
      simp [Room.addPlayer, hvalid.1, hnew.1, bind, Except.bind, pure, Except.pure]
    rw [List.foldlM_cons, hadd]
    refine foldlM_addPlayer hvalid.2 hnodup.2 fun t ht hmem => ?_
    rcases (AList.mem_insert ..).mp hmem with heq | hmem
    · exact hnodup.1 (List.mem_map.mpr ⟨t, ht, heq⟩)
    · exact hnew.2 t ht hmem

theorem decode_of_fold {d : RoomSnapshotDocument} {r : Room}
    (hfold : d.players.foldlM Room.addPlayer ⟨d.roomID, d.tick, d.stateVersion, ⟨d.status⟩, ∅, d.updatedAt⟩ = .ok r)
    (hvalid : r.validate = .ok ()) : roomSnapshotDomainFromDocument d = .ok r := by
  unfold roomSnapshotDomainFromDocument
  simp only [hfold, bind, Except.bind, hvalid]
  rfl

theorem Room.Keyed.nodup_players {room : Room} (hk : room.Keyed) (order : List Nat) :
    (((shuffle order room.players.entries).map (·.2)).map (·.playerID)).Nodup := by
  have hkeys : ((shuffle order room.players.entries).map (·.2)).map (·.playerID) =
      (shuffle order room.players.entries).map (·.1) := by
    rw [List.map_map]
    refine List.map_congr_left fun e he => ?_
    exact hk e.1 e.2 (AList.mem_lookup_iff.mpr (mem_shuffle.mp he))
  rw [hkeys]
  have hnodup : (room.players.entries.map Sigma.fst).Nodup := room.players.nodupKeys
  exact ((shuffle_perm order room.players.entries).map Sigma.fst).nodup_iff.mpr hnodup

theorem snapshotDocument_ok {room : Room} (hvalid : room.validate = .ok ()) (order : List Nat) :
    roomSnapshotDocumentFromDomain order room = .ok
      ⟨room.id, room.tick, room.stateVersion, room.status.text, (shuffle order room.players.entries).map (·.2),
        room.updatedAt⟩ := by
  rw [roomSnapshotDocumentFromDomain, hvalid]
  rfl

/-- For a valid room the snapshot can be taken, and it reads back as the room
exactly if every player is stored under its own `PlayerID`. -/
theorem snapshot_round_trip_iff (room : Room) (hvalid : room.validate = .ok ()) (order : List Nat) :
    ∃ document, roomSnapshotDocumentFromDomain order room = .ok document ∧
      ((∃ r, roomSnapshotDomainFromDocument document = .ok r ∧ r.Same room) ↔ room.Keyed) := by
  refine ⟨_, snapshotDocument_ok hvalid order, ?_⟩
  constructor
  · intro h p s hs
    obtain ⟨r, hr, hsame⟩ := h
    exact keyed_of_decode hr p s (congrFun hsame.players p ▸ hs)
  · intro hk
    have hmem := hk.mem_shuffle_players order
    have hfold := foldlM_addPlayer (r := ⟨room.id, room.tick, room.stateVersion, room.status, ∅, room.updatedAt⟩)
      (fun s hs => (validate_eq_ok.mp hvalid).2 _ s ((hmem s).mp hs)) (hk.nodup_players order) (by simp)
    have hsame : Room.Same ⟨room.id, room.tick, room.stateVersion, room.status,
        insertAll (·.playerID) ∅ ((shuffle order room.players.entries).map (·.2)), room.updatedAt⟩ room :=
      ⟨⟨rfl, rfl, rfl, rfl, hk.lookup_insertAll hmem⟩, rfl⟩
    exact ⟨_, decode_of_fold hfold (hsame.validate hvalid), hsame⟩

theorem snapshot_round_trip_room102 : room102.validate = .ok () ∧
    ∃ document, roomSnapshotDocumentFromDomain [0] room102 = .ok document ∧
      ((∃ r, roomSnapshotDomainFromDocument document = .ok r ∧ r.Same room102) ↔ room102.Keyed) :=
  ⟨by rfl, snapshot_round_trip_iff room102 (by rfl) [0]⟩

def twins : Room :=
  { room102 with players := ((∅ : Players).insert "player-1" (player1 100)).insert "player-2" (player1 50) }

theorem snapshot_loses_keys :
    (twins.validate = .ok () ∧ (roomSnapshotDocumentFromDomain [] twins >>= roomSnapshotDomainFromDocument) =
      .error errDuplicatePlayer) ∧
    (let room : Room := { room102 with players := (∅ : Players).insert "player-2" (player1 100) }
     room.validate = .ok () ∧ (roomSnapshotDocumentFromDomain [] room >>= roomSnapshotDomainFromDocument) =
      .ok room102) := by
  refine ⟨⟨by rfl, by rfl⟩, by rfl, by rfl⟩

/-! ## Mutate, all or nothing -/

structure RoomSnapshotDocument.Holds (d : RoomSnapshotDocument) (room : Room) : Prop where
  roomID : d.roomID = room.id
  tick : d.tick = room.tick
  stateVersion : d.stateVersion = room.stateVersion
  status : d.status = room.status.text
  updatedAt : d.updatedAt = room.updatedAt / 1000000 * 1000000
  players : ∀ p s, s ∈ d.players ∧ s.playerID = p ↔ room.players.lookup p = some s

structure World.Unchanged (w w' : World) : Prop where
  rooms : ∀ id, Option.Rel Room.Same (w'.rooms.lookup id) (w.rooms.lookup id)
  deltas : w'.deltas = w.deltas
  snapshots : w'.snapshots = w.snapshots

/-- The repository holds the room as it is in memory, and one delta, from the
previous room to it, has been appended to the buffer, which keeps the last
`deltaSize`. -/
def World.Recorded (w w' : World) (e : Env) (roomID : UInt64) : Prop :=
  ∃ previous room, w.rooms.lookup roomID = some previous ∧ w'.rooms.lookup roomID = some room ∧
    (∃ d ∈ w'.snapshots, d.roomID = roomID ∧ d.Holds room) ∧
    let deltas := w.buffer roomID ++ [roomDelta e previous room]
    w'.buffer roomID = deltas.drop (deltas.length - deltaSize)

def World.Atomic (w : World) (e : Env) (roomID : UInt64) (callback : Callback) : Prop :=
  (∀ err, (w.mutate e roomID callback).1 = .error err → w.Unchanged (w.mutate e roomID callback).2) ∧
    ((w.mutate e roomID callback).1 = .ok () → w.Recorded (w.mutate e roomID callback).2 e roomID)

/-- `AdvanceTick` takes the room, and the repository what it makes of it. -/
def World.Accepts (w : World) (e : Env) (room : Room) : Prop :=
  ∃ next w', room.advanceTick e.now = .ok next ∧ w.save e next = .ok w'

/-- A callback that fails leaves the room untouched; one whose change is kept
leaves the ID alone and stores each player under its own `PlayerID`. -/
def World.Fair (w : World) (e : Env) (roomID : UInt64) (callback : Callback) : Prop :=
  roomID ≠ 0 → ∀ previous room, w.rooms.lookup roomID = some previous →
    (∀ err, callback previous = (room, some err) → room.Same previous) ∧
    (callback previous = (room, none) → w.Accepts e room → room.id = roomID ∧ room.Keyed)

section
variable {w w' : World} {e : Env}

theorem Room.Same.refl (a : Room) : a.Same a := ⟨.rfl, rfl⟩

theorem World.Unchanged.refl (w : World) : w.Unchanged w := by
  refine ⟨fun id => ?_, rfl, rfl⟩
  cases w.rooms.lookup id with
  | none => exact .none
  | some r => exact .some (.refl r)

theorem unchanged_insert_iff {roomID : UInt64} {previous room : Room} (h : w.rooms.lookup roomID = some previous) :
    w.Unchanged { w with rooms := w.rooms.insert roomID room } ↔ room.Same previous := by
  constructor
  · intro hu
    have := hu.rooms roomID
    rw [AList.lookup_insert, h] at this
    cases this with
    | some hsame => exact hsame
  · intro hsame
    refine ⟨fun id => ?_, rfl, rfl⟩
    by_cases hid : id = roomID
    · subst hid
      rw [AList.lookup_insert, h]
      exact .some hsame
    · rw [AList.lookup_insert_ne hid]
      exact (World.Unchanged.refl w).rooms id

theorem holds_storedDocument_iff {room : Room} : (storedDocument e room).Holds room ↔ room.Keyed := by
  refine ⟨fun hholds p s hs => ((hholds.players p s).mpr hs).2, fun hk => ⟨rfl, rfl, rfl, rfl, rfl, fun p s => ?_⟩⟩
  rw [storedDocument, hk.mem_shuffle_players]
  constructor
  · rintro ⟨hs, rfl⟩
    exact hs
  · intro hs
    obtain rfl := hk p s hs
    exact ⟨hs, rfl⟩

theorem buffer_recordDelta (w : World) (e : Env) (previous current : Room) :
    (w.recordDelta e previous current).buffer current.id =
      (w.buffer current.id ++ [roomDelta e previous current]).drop
        ((w.buffer current.id ++ [roomDelta e previous current]).length - deltaSize) := by
  unfold World.buffer World.recordDelta
  simp only [AList.lookup_insert, Option.getD_some]

theorem recorded_iff {roomID : UInt64} {previous next : Room} {w₁ : World} (hp : w.rooms.lookup roomID = some previous)
    (hsave : w.save e next = .ok w₁) :
    w.Recorded (World.recordDelta { w₁ with rooms := w₁.rooms.insert roomID next } e previous next) e roomID ↔
      next.id = roomID ∧ next.Keyed := by
  obtain ⟨-, rfl⟩ := save_ok hsave
  constructor
  · rintro ⟨_, room, -, hroom, ⟨d', -, hid', hd'⟩, -⟩
    obtain rfl : next = room := Option.some.inj ((AList.lookup_insert _).symm.trans hroom)
    exact ⟨hd'.roomID.symm.trans hid', fun p s hs => ((hd'.players p s).mpr hs).2⟩
  · rintro ⟨rfl, hk⟩
    refine ⟨previous, next, hp, AList.lookup_insert _, ⟨_, Coll.mem_upsert.mpr (.inl rfl), rfl, holds_storedDocument_iff.mpr hk⟩, ?_⟩
    exact buffer_recordDelta ..

theorem mutate_of_callback_error {roomID : UInt64} {callback : Callback} {previous room : Room} {err : GoErr}
    (hzero : roomID ≠ 0) (hp : w.rooms.lookup roomID = some previous) (hcall : callback previous = (room, some err)) :
    w.mutate e roomID callback = (.error err, { w with rooms := w.rooms.insert roomID room }) := by
  simp [World.mutate, hzero, hp, hcall]

theorem mutate_of_accepted {roomID : UInt64} {callback : Callback} {previous room next : Room} (hzero : roomID ≠ 0)
    (hp : w.rooms.lookup roomID = some previous) (hcall : callback previous = (room, none))
    (hadv : room.advanceTick e.now = .ok next) (hsave : w.save e next = .ok w') :
    w.mutate e roomID callback =
      (.ok (), World.recordDelta { w' with rooms := w'.rooms.insert roomID next } e previous next) := by
  simp [World.mutate, hzero, hp, hcall, hadv, hsave]

/-- `Mutate` is all or nothing exactly if the callback is fair. -/
theorem mutate_atomic_iff (w : World) (e : Env) (roomID : UInt64) (callback : Callback) :
    w.Atomic e roomID callback ↔ w.Fair e roomID callback := by
  constructor
  · intro h hzero previous room hp
    refine ⟨fun err hcall => ?_, fun hcall hok => ?_⟩
    · have hm := mutate_of_callback_error (e := e) hzero hp hcall
      have hu := h.1 err (by rw [hm])
      rw [hm] at hu
      exact (unchanged_insert_iff hp).mp hu
    · obtain ⟨next, w₁, hadv, hsave⟩ := hok
      have hm := mutate_of_accepted hzero hp hcall hadv hsave
      have hrec := h.2 (by rw [hm])
      rw [hm, recorded_iff hp hsave] at hrec
      obtain ⟨hid, -, hplayers⟩ := advanceTick_ok hadv
      exact ⟨hid ▸ hrec.1, fun p s hs => hrec.2 p s (hplayers ▸ hs)⟩
  · intro h
    by_cases hzero : roomID = 0
    · have hm : w.mutate e roomID callback = (.error errInvalidRoom, w) := by simp [World.mutate, hzero]
      rw [World.Atomic, hm]
      exact ⟨fun _ _ => .refl w, fun hok => by cases hok⟩
    rcases hm : w.mutate e roomID callback with ⟨r, w'⟩
    rw [World.Atomic, hm]
    rcases mutate_inv hm with ⟨⟨err, rfl⟩, rfl⟩ | ⟨previous, room, hp, ⟨err, hcall, rfl, rfl⟩ | ⟨next, w₁, hcall, hadv, hsave, rfl, rfl⟩⟩
    · exact ⟨fun _ _ => .refl _, fun hok => by cases hok⟩
    · refine ⟨fun _ _ => ?_, fun hok => by cases hok⟩
      exact (unchanged_insert_iff hp).mpr ((h hzero previous room hp).1 err hcall)
    · refine ⟨fun _ herr => (by cases herr), fun _ => (recorded_iff hp hsave).mpr ?_⟩
      obtain ⟨hid, hk⟩ := (h hzero previous room hp).2 hcall ⟨next, w₁, hadv, hsave⟩
      obtain ⟨hid', -, hplayers⟩ := advanceTick_ok hadv
      exact ⟨hid'.trans hid, fun p s hs => hk p s (hplayers ▸ hs)⟩

end

def evict (playerID : String) : Callback := fun r =>
  ({ r with players := r.players.erase playerID }, some (.new "player is protected"))

/-- The room is created with a player; the callback removes the player and fails:
`Mutate` returns the error, and the player is gone from memory but not from the
repository. -/
theorem mutate_keeps_failed_change :
    let w : World := World.after ⟨∅, ∅, .empty⟩ (.create room102 {})
    let (r, w') := w.mutate {} 102 (evict "player-1")
    r = .error (.new "player is protected") ∧
      (w.rooms.lookup 102).map (fun room => room.players.keys) = some ["player-1"] ∧
      (w'.rooms.lookup 102).map (fun room => room.players.keys) = some [] ∧
      w'.snapshots.docs.map (fun d => d.players.map (·.playerID)) = [["player-1"]] ∧
      ¬ w.Atomic {} 102 (evict "player-1") := by
  refine ⟨by rfl, by decide, by decide, by decide, fun h => ?_⟩
  have hrooms := (h.1 _ rfl).rooms 102
  cases hrooms with
  | some hsame => exact absurd (congrFun hsame.players "player-1") (by decide)

/-! ## The status -/

def RoomStatus.Le (a b : RoomStatus) : Prop :=
  a = b ∨ a = .created ∧ (b = .running ∨ b = .finished) ∨ a = .running ∧ b = .finished

instance (a b : RoomStatus) : Decidable (a.Le b) := inferInstanceAs (Decidable (_ ∨ _))

structure Forwards (callback : Callback) : Prop where
  id : ∀ r, (callback r).1.id = r.id
  status : ∀ r : Room, r.status.Le (callback r).1.status

def Operation.Forward : Operation → Prop
  | .mutate _ callback _ => Forwards callback
  | _ => False

structure World.Onward (w w' : World) : Prop where
  rooms : ∀ id r, w.rooms.lookup id = some r → ∃ r', w'.rooms.lookup id = some r' ∧ r.status.Le r'.status
  snapshots : ∀ d ∈ w.snapshots, ∃ d' ∈ w'.snapshots, d'.roomID = d.roomID ∧ RoomStatus.Le ⟨d.status⟩ ⟨d'.status⟩

def World.Leaves (w : World) (op : Operation) (roomID : UInt64) (room : Room) : Prop :=
  ∃ callback e previous, op = .mutate roomID callback e ∧ roomID ≠ 0 ∧ w.rooms.lookup roomID = some previous ∧
    callback previous = (room, none) ∧ w.Accepts e room

def World.LifeCycle (w : World) (op : Operation) : Prop :=
  w.Onward (w.after op) ∧ ∀ roomID room, w.Leaves op roomID room → room.status = .finished →
    (∃ r, (w.after op).rooms.lookup roomID = some r ∧ r.status = .finished) ∧
      ∃ d ∈ (w.after op).snapshots, d.roomID = roomID ∧ d.status = RoomStatus.finished.text

def World.Unfinished (w : World) (op : Operation) : Prop :=
  ∀ roomID room, w.Leaves op roomID room → room.status = .created ∨ room.status = .running

def World.Aligned (w : World) : Prop :=
  ∀ id r, w.rooms.lookup id = some r → r.id = id ∧ ∀ d ∈ w.snapshots, d.roomID = id → RoomStatus.Le ⟨d.status⟩ r.status

namespace RoomStatus

theorem Le.trans {a b c : RoomStatus} (h : a.Le b) (h' : b.Le c) : a.Le c := by
  unfold Le at *
  rcases h with rfl | ⟨rfl, rfl | rfl⟩ | ⟨rfl, rfl⟩
  · exact h'
  · revert h'
    simp +decide
    tauto
  · revert h'
    simp +decide
    tauto
  · revert h'
    simp +decide
    tauto

theorem le_running_iff {a : RoomStatus} : a.Le running ↔ a = created ∨ a = running := by
  unfold Le
  simp +decide
  tauto

theorem ahead {a b : RoomStatus} (ha : a = created ∨ a = running) (h : a.Le b) : b = created ∨ b = running ∨ b = finished := by
  unfold Le at h
  rcases ha with rfl | rfl
  · simp +decide at h
    tauto
  · simp +decide at h
    tauto

theorem created_or_running {a b : RoomStatus} (h : a.Le b) (hb : b = created ∨ b = running) : a = created ∨ a = running := by
  refine le_running_iff.mp (h.trans (le_running_iff.mpr hb))

end RoomStatus

section
variable {w w' : World} {e : Env} {roomID : UInt64} {callback : Callback}

theorem RoomStatus.Le.refl (a : RoomStatus) : a.Le a := .inl rfl

theorem World.Onward.refl (w : World) : w.Onward w :=
  ⟨fun _ r hr => ⟨r, hr, .refl _⟩, fun d hd => ⟨d, hd, rfl, .refl _⟩⟩

theorem lifeCycle_of_error {err : GoErr} (h : (w.mutate e roomID callback).1 = .error err)
    (hon : w.Onward (w.after (.mutate roomID callback e))) :
    w.LifeCycle (.mutate roomID callback e) ↔ w.Unfinished (.mutate roomID callback e) := by
  have hno : ∀ id room, ¬ w.Leaves (.mutate roomID callback e) id room := by
    rintro id room ⟨_, _, _, heq, hzero, hp, hcall, next, w₁, hadv, hsave⟩
    cases heq
    rw [mutate_of_accepted hzero hp hcall hadv hsave] at h
    cases h
  exact ⟨fun _ id room hl => absurd hl (hno id room), fun _ => ⟨hon, fun id room hl => absurd hl (hno id room)⟩⟩

theorem onward_insert {previous room : Room} (hp : w.rooms.lookup roomID = some previous)
    (hle : previous.status.Le room.status) : w.Onward { w with rooms := w.rooms.insert roomID room } := by
  refine ⟨fun id r hr => ?_, (World.Onward.refl w).snapshots⟩
  by_cases hid : id = roomID
  · subst hid
    obtain rfl := Option.some.inj (hp.symm.trans hr)
    exact ⟨room, AList.lookup_insert _, hle⟩
  · exact ⟨r, (AList.lookup_insert_ne hid).trans hr, .refl _⟩

theorem aligned_insert {previous room : Room} (h : w.Aligned) (hp : w.rooms.lookup roomID = some previous)
    (hid : room.id = previous.id) (hle : previous.status.Le room.status) :
    World.Aligned { w with rooms := w.rooms.insert roomID room } := by
  intro id r hr
  rcases lookup_insert_cases hr with ⟨rfl, rfl⟩ | ⟨-, hr⟩
  · obtain ⟨hown, hdocs⟩ := h _ previous hp
    exact ⟨hid.trans hown, fun d hd heq => (hdocs d hd heq).trans hle⟩
  · exact h id r hr

theorem onward_stored_iff {previous next : Room} {d : RoomSnapshotDocument} (h : w.Aligned)
    (hp : w.rooms.lookup roomID = some previous) (hd : d.roomID = roomID) (hstatus : d.status = next.status.text)
    (hrooms : w'.rooms = w.rooms.insert roomID next) (hsnapshots : w'.snapshots = w.snapshots.upsert d) :
    w.Onward w' ↔ previous.status.Le next.status := by
  constructor
  · intro hon
    obtain ⟨r, hr, hle⟩ := hon.rooms roomID previous hp
    rw [hrooms, AList.lookup_insert] at hr
    cases hr
    exact hle
  · intro hle
    refine ⟨?_, fun x hx => ?_⟩
    · rw [hrooms]
      exact (onward_insert hp hle).rooms
    · rw [hsnapshots]
      by_cases hid : x.roomID = roomID
      · refine ⟨d, mem_upsert_snapshot.mpr (.inl rfl), hd.trans hid.symm, ?_⟩
        rw [hstatus]
        exact ((h _ previous hp).2 x hx hid).trans hle
      · exact ⟨x, mem_upsert_snapshot.mpr (.inr ⟨hx, fun heq => hid (heq.symm.trans hd)⟩), rfl, .refl _⟩

theorem aligned_stored {next : Room} {d : RoomSnapshotDocument} (h : w.Aligned) (hnext : next.id = roomID)
    (hd : d.roomID = roomID) (hstatus : d.status = next.status.text)
    (hrooms : w'.rooms = w.rooms.insert roomID next) (hsnapshots : w'.snapshots = w.snapshots.upsert d) : w'.Aligned := by
  intro id r hr
  rw [hrooms] at hr
  rw [hsnapshots]
  rcases lookup_insert_cases hr with ⟨rfl, rfl⟩ | ⟨hne, hr⟩
  · refine ⟨hnext, fun x hx hid => ?_⟩
    rcases mem_upsert_snapshot.mp hx with rfl | ⟨-, hother⟩
    · rw [hstatus]
      exact .refl _
    · exact absurd (hd.trans hid.symm) hother
  · refine ⟨(h id r hr).1, fun x hx hid => ?_⟩
    rcases mem_upsert_snapshot.mp hx with rfl | ⟨hx, -⟩
    · exact absurd (hid.symm.trans hd) hne
    · exact (h id r hr).2 x hx hid

theorem lifeCycle_step (h : w.Aligned) (hf : Forwards callback) :
    (w.LifeCycle (.mutate roomID callback e) ↔ w.Unfinished (.mutate roomID callback e)) ∧
      (w.after (.mutate roomID callback e)).Aligned := by
  rcases hm : w.mutate e roomID callback with ⟨r, w'⟩
  have hafter : w.after (.mutate roomID callback e) = w' := by rw [World.after, hm]
  rcases mutate_inv hm with ⟨⟨err, rfl⟩, rfl⟩ | ⟨previous, room, hp, ⟨err, hcall, rfl, rfl⟩ | ⟨next, w₁, hcall, hadv, hsave, rfl, rfl⟩⟩
  · rw [hafter]
    refine ⟨lifeCycle_of_error (congrArg Prod.fst hm) ?_, h⟩
    rw [hafter]
    exact .refl _
  · have hroom : room = (callback previous).1 := by rw [hcall]
    have hle : previous.status.Le room.status := hroom ▸ hf.status previous
    refine ⟨lifeCycle_of_error (congrArg Prod.fst hm) ?_, hafter ▸ aligned_insert h hp (hroom ▸ hf.id previous) hle⟩
    rw [hafter]
    exact onward_insert hp hle
  · have hroom : room = (callback previous).1 := by rw [hcall]
    have hle : previous.status.Le room.status := hroom ▸ hf.status previous
    have hnext : next.id = roomID := by rw [(advanceTick_ok hadv).1, hroom, hf.id, (h _ previous hp).1]
    have hrunning : next.status = .running := by
      obtain ⟨-, -, hadv⟩ := bind_eq_ok hadv
      cases hadv
      rfl
    have hzero : roomID ≠ 0 := by
      rintro rfl
      simp [World.mutate] at hm
    have haccepts : w.Accepts e room := ⟨next, w₁, hadv, hsave⟩
    obtain ⟨-, rfl⟩ := save_ok hsave
    have hon : w.Onward (w.after (.mutate roomID callback e)) ↔ _ :=
      onward_stored_iff (d := storedDocument e next) h hp hnext rfl (by rw [hafter]; rfl) (by rw [hafter]; rfl)
    refine ⟨?_, aligned_stored (d := storedDocument e next) h hnext hnext rfl (by rw [hafter]; rfl) (by rw [hafter]; rfl)⟩
    rw [hrunning, RoomStatus.le_running_iff] at hon
    have hleaves : w.Leaves (.mutate roomID callback e) roomID room := ⟨callback, e, previous, rfl, hzero, hp, hcall, haccepts⟩
    have honly : ∀ id r, w.Leaves (.mutate roomID callback e) id r → id = roomID ∧ r = room := by
      rintro id r ⟨_, _, p, heq, -, hp', hcall', -⟩
      cases heq
      obtain rfl := Option.some.inj (hp.symm.trans hp')
      exact ⟨rfl, congrArg Prod.fst (hcall'.symm.trans hcall)⟩
    constructor
    · rintro ⟨hlife, hdone⟩ id r hl
      obtain ⟨rfl, rfl⟩ := honly id r hl
      rcases RoomStatus.ahead (hon.mp hlife) hle with hcreated | hrun | hfinished
      · exact .inl hcreated
      · exact .inr hrun
      · -- `AdvanceTick` has set it back to running
        obtain ⟨⟨r', hr', hr'done⟩, -⟩ := hdone _ _ hl hfinished
        rw [hafter] at hr'
        obtain rfl : next = r' := Option.some.inj ((AList.lookup_insert _).symm.trans hr')
        rw [hrunning] at hr'done
        exact absurd hr'done (by decide)
    · intro hun
      have hstatus := hun _ _ hleaves
      refine ⟨hon.mpr (RoomStatus.created_or_running hle hstatus), fun id r hl hfinished => ?_⟩
      obtain ⟨-, rfl⟩ := honly id r hl
      rw [hfinished] at hstatus
      exact absurd hstatus (by decide)

theorem throughout_lifeCycle : ∀ (ops : List Operation) {w : World}, w.Aligned → (∀ op ∈ ops, op.Forward) →
    (w.Throughout World.LifeCycle ops ↔ w.Throughout World.Unfinished ops)
  | [], _, _, _ => Iff.rfl
  | .mutate _ _ _ :: ops, _, h, hops => by
    rw [List.forall_mem_cons] at hops
    obtain ⟨hstep, hnext⟩ := lifeCycle_step h hops.1
    exact and_congr hstep (throughout_lifeCycle ops hnext hops.2)
  | .create _ _ :: _, _, _, hops => (hops _ (List.mem_cons_self ..)).elim
  | .restore _ _ :: _, _, _, hops => (hops _ (List.mem_cons_self ..)).elim
  | .restart :: _, _, _, hops => (hops _ (List.mem_cons_self ..)).elim

/-- Mutations whose callbacks set the status only forwards, on rooms whose stored
status is not ahead of the memory: every call keeps to the order, and a finished
room is finished, exactly if no callback whose change is kept leaves a room
finished. -/
theorem life_cycle_iff (w : World) (h : w.Aligned) (ops : List Operation) (hops : ∀ op ∈ ops, op.Forward) :
    w.Throughout World.LifeCycle ops ↔ w.Throughout World.Unfinished ops :=
  throughout_lifeCycle ops h hops

end

def setStatus (status : RoomStatus) : Callback := fun r =>
  if r.status.Le status then ({ r with status }, none) else (r, none)

theorem setStatus_forwards (status : RoomStatus) : Forwards (setStatus status) := by
  refine ⟨fun r => ?_, fun r => ?_⟩
  · unfold setStatus
    split <;> rfl
  · unfold setStatus
    split
    · assumption
    · exact .refl _

def createdWorld : World := World.after ⟨∅, ∅, .empty⟩ (.create room102 {})

theorem createdWorld_aligned : createdWorld.Aligned := by
  intro id r hr
  have hrooms : createdWorld.rooms = (∅ : AList fun _ : UInt64 => Room).insert 102 room102 := by rfl
  rw [hrooms] at hr
  rcases lookup_insert_cases hr with ⟨rfl, rfl⟩ | ⟨-, hr⟩
  · exact ⟨rfl, by decide⟩
  · cases hr

theorem life_cycle_running :
    createdWorld.Aligned ∧ (∀ op ∈ [Operation.mutate 102 (setStatus .running) {}], op.Forward) ∧
      (createdWorld.Throughout World.LifeCycle [.mutate 102 (setStatus .running) {}] ↔
        createdWorld.Throughout World.Unfinished [.mutate 102 (setStatus .running) {}]) := by
  have hops : ∀ op ∈ [Operation.mutate 102 (setStatus .running) {}], op.Forward := by
    rintro op (_ | ⟨_, hop⟩)
    · exact setStatus_forwards .running
    · cases hop
  exact ⟨createdWorld_aligned, hops, life_cycle_iff createdWorld createdWorld_aligned _ hops⟩

theorem finished_room_runs :
    let op := Operation.mutate 102 (setStatus .finished) {}
    createdWorld.Leaves op 102 { room102 with status := .finished } ∧
      ((createdWorld.after op).rooms.lookup 102).map (·.status) = some .running ∧
      (createdWorld.after op).snapshots.docs.map (·.status) = ["running"] ∧ ¬ createdWorld.LifeCycle op := by
  intro op
  have hleaves : createdWorld.Leaves op 102 { room102 with status := .finished } :=
    ⟨setStatus .finished, {}, room102, rfl, by decide, by rfl, by rfl, _, _, by rfl, by rfl⟩
  refine ⟨hleaves, by decide, by decide, fun h => ?_⟩
  obtain ⟨-, d, hd, -, hstatus⟩ := h.2 102 _ hleaves rfl
  have : ∀ d ∈ (createdWorld.after op).snapshots.docs, d.status ≠ RoomStatus.finished.text := by decide
  exact this d hd hstatus

end GameServer.Battle
