import GameServer.Prog
import GameServer.Collection
import GameServer.Go
import GameServer.GoMap
import Mathlib.Data.List.MinMax

/-!
# The battle service: rooms, deltas and snapshots

`RoomManager` over its two maps and the snapshot repository. `Create` and
`Mutate` hold the lock from beginning to end and are one command each;
`RestoreByPlayerIDSince` reads the rooms, asks the repository, stores what it
loaded and reads the delta buffer in four separate commands.
-/

namespace GameServer.Battle

/-! ## Domain -/

def errRoomNotFound : GoErr := .new "battle room not found"
def errInvalidRoom : GoErr := .new "invalid battle room"
def errDuplicateRoom : GoErr := .new "battle room already exists"
def errPlayerNotInRoom : GoErr := .new "player is not in battle room"
def errDuplicatePlayer : GoErr := .new "player is already in battle room"
def errInvalidPlayerState : GoErr := .new "invalid battle player state"

structure RoomStatus where
  text : String
  deriving DecidableEq

def RoomStatus.created : RoomStatus := ⟨"created"⟩
def RoomStatus.running : RoomStatus := ⟨"running"⟩
def RoomStatus.finished : RoomStatus := ⟨"finished"⟩

/-- Positions are `float32`; they are only copied and compared, and stand here
as their bits. -/
structure PlayerState where
  playerID : String
  hp : Int32
  positionX : UInt32
  positionY : UInt32
  deriving DecidableEq

def PlayerState.validate (s : PlayerState) : Except GoErr Unit :=
  if s.playerID = "" ∨ s.hp < 0 then .error errInvalidPlayerState else .ok ()

abbrev Players := AList fun _ : String => PlayerState

structure Room where
  id : UInt64
  tick : UInt64
  stateVersion : UInt64
  status : RoomStatus
  players : Players
  updatedAt : Time
  deriving DecidableEq

structure RoomDelta where
  roomID : UInt64
  fromStateVersion : UInt64
  toStateVersion : UInt64
  tick : UInt64
  status : RoomStatus
  upsertPlayers : List PlayerState
  removedPlayerIDs : List String
  deriving DecidableEq

-- the loop over the players stops at the first error; all errors are the same
def Room.validate (r : Room) : Except GoErr Unit := do
  if r.id = 0 ∨ r.stateVersion = 0 ∨ r.status.text = "" ∨ r.updatedAt = 0 then throw errInvalidRoom
  r.players.entries.forM fun e => e.2.validate

def Room.addPlayer (r : Room) (player : PlayerState) : Except GoErr Room := do
  player.validate
  if player.playerID ∈ r.players then throw errDuplicatePlayer
  return { r with players := r.players.insert player.playerID player }

def Room.advanceTick (r : Room) (now : Time) : Except GoErr Room := do
  r.validate
  return { r with tick := r.tick + 1, stateVersion := r.stateVersion + 1, status := .running, updatedAt := now }

/-! ## Snapshots -/

structure RoomSnapshotDocument where
  roomID : UInt64
  tick : UInt64
  stateVersion : UInt64
  status : String
  players : List PlayerState
  updatedAt : Time
  deriving DecidableEq

def roomSnapshotDocumentFromDomain (order : List Nat) (room : Room) : Except GoErr RoomSnapshotDocument := do
  room.validate
  return {
    roomID := room.id, tick := room.tick, stateVersion := room.stateVersion, status := room.status.text
    players := (shuffle order room.players.entries).map (·.2), updatedAt := room.updatedAt }

def roomSnapshotDomainFromDocument (document : RoomSnapshotDocument) : Except GoErr Room := do
  let room : Room :=
    { id := document.roomID, tick := document.tick, stateVersion := document.stateVersion,
      status := ⟨document.status⟩, players := ∅, updatedAt := document.updatedAt }
  let room ← document.players.foldlM Room.addPlayer room
  room.validate
  return room

/-- What BSON keeps of a document: unsigned integers must fit `int64`, times
are cut to milliseconds. -/
def bsonDocument (d : RoomSnapshotDocument) : Option RoomSnapshotDocument :=
  if d.roomID.toNat < 2 ^ 63 ∧ d.tick.toNat < 2 ^ 63 ∧ d.stateVersion.toNat < 2 ^ 63 then
    some { d with updatedAt := d.updatedAt / 1000000 * 1000000 }
  else none

def roomSnapshotIndexes : Index RoomSnapshotDocument := .on (·.roomID)

/-! ## The manager -/

structure World where
  rooms : AList fun _ : UInt64 => Room
  deltas : AList fun _ : UInt64 => List RoomDelta
  snapshots : Coll roomSnapshotIndexes

def deltaSize : Nat := 1024

inductive Loop
  | rooms
  | documents
  | players
  | upserts
  | removals

/-- What the environment contributes to one step: the clock's reading, the
failure of the repository, if any, and the orders of the loops. -/
structure Env where
  now : Time := 1
  fail : Option String := none
  order : Loop → List Nat := fun _ => []

instance : Inhabited Env := ⟨{}⟩

def World.save (w : World) (e : Env) (room : Room) : Except GoErr World := do
  let document ← roomSnapshotDocumentFromDomain (e.order .players) room
  match e.fail, bsonDocument document with
  | some text, _ => throw (.wrap "save battle room snapshot" (.driver text))
  | none, none => throw (.wrap "save battle room snapshot" (.driver "overflows int64"))
  | none, some document => return { w with snapshots := w.snapshots.upsert document }

/-- `RoomSnapshotRepository.FindByPlayerID`: the latest of the documents that
list the player, any one of them among equals. -/
def World.findByPlayerID (w : World) (e : Env) (playerID : String) : Except GoErr Room :=
  if playerID = "" then .error errPlayerNotInRoom
  else
    match e.fail with
    | some text => .error (.wrap "find battle room snapshot" (.driver text))
    | none =>
      let found := (shuffle (e.order .documents) w.snapshots.docs).filter fun d => d.players.any (·.playerID == playerID)
      match found.argmax (·.updatedAt) with
      | none => .error errRoomNotFound
      | some document => roomSnapshotDomainFromDocument document

def World.create (w : World) (e : Env) (room : Room) : Except GoErr World := do
  room.validate
  if room.id ∈ w.rooms then throw errDuplicateRoom
  let w ← w.save e room
  return { w with rooms := w.rooms.insert room.id room, deltas := w.deltas.insert room.id [] }

def roomDelta (e : Env) (previous current : Room) : RoomDelta where
  roomID := current.id
  fromStateVersion := previous.stateVersion
  toStateVersion := current.stateVersion
  tick := current.tick
  status := current.status
  upsertPlayers := (shuffle (e.order .upserts) current.players.entries).filterMap fun ⟨playerID, player⟩ =>
    if previous.players.lookup playerID = some player then none else some player
  removedPlayerIDs := (shuffle (e.order .removals) previous.players.entries).filterMap fun ⟨playerID, _⟩ =>
    if playerID ∈ current.players then none else some playerID

def World.recordDelta (w : World) (e : Env) (previous current : Room) : World :=
  let deltas := (w.deltas.lookup current.id).getD [] ++ [roomDelta e previous current]
  { w with deltas := w.deltas.insert current.id (deltas.drop (deltas.length - deltaSize)) }

abbrev Callback := Room → Room × Option GoErr

/-- `Mutate`. The room is put back when `AdvanceTick` or `Save` fails, not when
the callback does. -/
def World.mutate (w : World) (e : Env) (roomID : UInt64) (callback : Callback) : Except GoErr Unit × World :=
  if roomID = 0 then (.error errInvalidRoom, w)
  else
    match w.rooms.lookup roomID with
    | none => (.error errRoomNotFound, w)
    | some previous =>
      match callback previous with
      | (room, some err) => (.error err, { w with rooms := w.rooms.insert roomID room })
      | (room, none) =>
        match room.advanceTick e.now with
        | .error err => (.error err, w)
        | .ok room =>
          match w.save e room with
          | .error err => (.error err, w)
          | .ok w => (.ok (), World.recordDelta { w with rooms := w.rooms.insert roomID room } e previous room)

def World.scan (w : World) (e : Env) (playerID : String) : Option Room :=
  ((shuffle (e.order .rooms) w.rooms.entries).find? fun ⟨_, room⟩ => playerID ∈ room.players).map (·.2)

/-! ## Composing deltas -/

structure Composition where
  players : Players := ∅
  removed : AList fun _ : String => Unit := ∅
  tick : UInt64 := 0
  status : RoomStatus := ⟨""⟩
  nextVersion : UInt64

def Composition.add (c : Composition) (delta : RoomDelta) : Composition where
  players := eraseAll (insertAll (·.playerID) c.players delta.upsertPlayers) delta.removedPlayerIDs
  removed := delta.removedPlayerIDs.foldl (fun m id => m.insert id ())
    (eraseAll c.removed (delta.upsertPlayers.map (·.playerID)))
  tick := delta.tick
  status := delta.status
  nextVersion := delta.toStateVersion

def Composition.addAll (toVersion : UInt64) : List RoomDelta → Composition → Composition
  | [], c => c
  | delta :: deltas, c =>
    if delta.fromStateVersion ≠ c.nextVersion ∨ delta.toStateVersion > toVersion then c.addAll toVersion deltas
    else if (c.add delta).nextVersion = toVersion then c.add delta
    else (c.add delta).addAll toVersion deltas

def Composition.delta (c : Composition) (e : Env) (roomID fromVersion toVersion : UInt64) : RoomDelta where
  roomID := roomID
  fromStateVersion := fromVersion
  toStateVersion := toVersion
  tick := c.tick
  status := c.status
  upsertPlayers := (shuffle (e.order .upserts) c.players.entries).map (·.2)
  removedPlayerIDs := (shuffle (e.order .removals) c.removed.entries).map (·.1)

def composeDeltas (e : Env) (roomID : UInt64) (deltas : List RoomDelta) (fromVersion toVersion : UInt64) :
    Option RoomDelta :=
  if fromVersion ≥ toVersion ∨ deltas = [] then none
  else
    let c := Composition.addAll toVersion deltas { nextVersion := fromVersion }
    if c.nextVersion ≠ toVersion then none else some (c.delta e roomID fromVersion toVersion)

/-! ## Commands -/

inductive Cmd
  | create (room : Room)
  | mutate (roomID : UInt64) (callback : Callback)
  | scan (playerID : String)
  | findByPlayerID (playerID : String)
  | load (room : Room)
  | deltas (roomID : UInt64)

/-- Reading the deltas also fixes the environment their composition meets. -/
@[reducible] def Ans : Cmd → Type
  | .create _ => Except GoErr Unit
  | .mutate _ _ => Except GoErr Unit
  | .scan _ => Option Room
  | .findByPlayerID _ => Except GoErr Room
  | .load _ => Unit
  | .deltas _ => List RoomDelta × Env

def World.answer (w : World) (e : Env) : (c : Cmd) → Ans c × World
  | .create room =>
    match w.create e room with
    | .error err => (.error err, w)
    | .ok w => (.ok (), w)
  | .mutate roomID callback => w.mutate e roomID callback
  | .scan playerID => (w.scan e playerID, w)
  | .findByPlayerID playerID => (w.findByPlayerID e playerID, w)
  | .load room => ((), { w with rooms := w.rooms.insert room.id room })
  | .deltas roomID => (((w.deltas.lookup roomID).getD [], e), w)

def exec (_ : Nat) (e : Env) (w : World) (c : Cmd) : Option (Ans c × World) := some (w.answer e c)

/-! ## Handlers -/

inductive RestoreMode
  | full
  | delta
  | noop
  deriving DecidableEq

structure RestoreResult where
  room : Room
  mode : RestoreMode
  baseStateVersion : UInt64 := 0
  delta : Option RoomDelta := none
  deriving DecidableEq

inductive Reply
  | done
  | restored (result : RestoreResult)
  deriving DecidableEq

abbrev Handler := Prog Ans (Except GoErr Reply)

def perform (c : Cmd) : Prog Ans (Ans c) := Prog.perform c

def restoreByPlayerID (playerID : String) : Prog Ans (Except GoErr Room) :=
  if playerID = "" then return .error errPlayerNotInRoom
  else do
    match ← perform (.scan playerID) with
    | some room => return .ok room
    | none =>
      match ← perform (.findByPlayerID playerID) with
      | .error err => return .error err
      | .ok room =>
        perform (.load room)
        return .ok room

def answerSince (lastStateVersion : UInt64) (allowIncremental : Bool) (room : Room) : Handler := do
  if lastStateVersion = room.stateVersion then
    return .ok (.restored { room, mode := .noop, baseStateVersion := lastStateVersion })
  if allowIncremental ∧ lastStateVersion < room.stateVersion then
    let (deltas, e) ← perform (.deltas room.id)
    if let some delta := composeDeltas e room.id deltas lastStateVersion room.stateVersion then
      return .ok (.restored { room, mode := .delta, baseStateVersion := lastStateVersion, delta := some delta })
  return .ok (.restored { room, mode := .full })

def restoreByPlayerIDSince (playerID : String) (lastStateVersion : UInt64) (allowIncremental : Bool) : Handler := do
  match ← restoreByPlayerID playerID with
  | .error err => return .error err
  | .ok room => answerSince lastStateVersion allowIncremental room

inductive Call
  | create (room : Room)
  | mutate (roomID : UInt64) (callback : Callback)
  | restore (playerID : String) (lastStateVersion : UInt64) (allowIncremental : Bool)

def doneOr : Except GoErr Unit → Except GoErr Reply
  | .error err => .error err
  | .ok () => .ok .done

def Call.handler : Call → Handler
  | .create room => do return doneOr (← perform (.create room))
  | .mutate roomID callback => do return doneOr (← perform (.mutate roomID callback))
  | .restore playerID lastStateVersion allowIncremental =>
    restoreByPlayerIDSince playerID lastStateVersion allowIncremental

/-! ## Runs -/

abbrev State := Pool Ans World (Except GoErr Reply)

def State.init (snapshots : Coll roomSnapshotIndexes) (calls : List Call) : State :=
  Pool.start ⟨∅, ∅, snapshots⟩ (calls.map Call.handler)

end GameServer.Battle
