import GameServer.BattleSound
import Mathlib.Data.String.Basic

/-!
# Restoring a client's battle

The answer of the battle module to a restore request, as the gateway passes it
on, and a client that keeps the room and the version it has been sent.
-/

namespace GameServer.Battle

/-! ## Messages -/

inductive StatePayloadType
  | unspecified
  | battleSnapshot
  | battleDelta
  deriving DecidableEq

def stateSchemaVersion : UInt32 := 1

structure BattleRoomSnapshot where
  roomID : UInt64
  tick : UInt64
  stateVersion : UInt64
  status : String
  players : List PlayerState
  updatedAtUnixMilli : Nat

def marshalRoomSnapshot (room : Room) : BattleRoomSnapshot where
  roomID := room.id
  tick := room.tick
  stateVersion := room.stateVersion
  status := room.status.text
  players := (room.players.keys.mergeSort fun a b => decide (a ≤ b)).filterMap room.players.lookup
  updatedAtUnixMilli := room.updatedAt / 1000000

def marshalRoomDelta : Option RoomDelta → Except GoErr RoomDelta
  | none => .error errInvalidRoom
  | some delta => .ok delta

inductive Payload
  | empty
  | snapshot (snapshot : BattleRoomSnapshot)
  | delta (delta : RoomDelta)

structure RestorePlayerStateResponse where
  playerID : String
  stateVersion : UInt64 := 0
  snapshot : Payload := .empty
  available : Bool
  mode : RestoreMode := .full
  baseStateVersion : UInt64 := 0
  payloadType : StatePayloadType := .unspecified
  schemaVersion : UInt32 := 0

def battleStatePayloadType : RestoreMode → StatePayloadType
  | .delta => .battleDelta
  | .noop => .unspecified
  | .full => .battleSnapshot

/-! ## The handler -/

def responsePayload (result : RestoreResult) : Except GoErr Payload :=
  match result.mode with
  | .delta => return .delta (← marshalRoomDelta result.delta)
  | .noop => return .empty
  | .full => return .snapshot (marshalRoomSnapshot result.room)

def restoreResponse (playerID : String) (result : RestoreResult) : Except GoErr RestorePlayerStateResponse := do
  let payload ← responsePayload result
  return {
    playerID, available := true, stateVersion := result.room.stateVersion, mode := result.mode
    baseStateVersion := result.baseStateVersion, payloadType := battleStatePayloadType result.mode
    schemaVersion := stateSchemaVersion, snapshot := payload }

def respond (playerID : String) : Except GoErr Reply → Except GoErr RestorePlayerStateResponse
  | .error err =>
    if err.is errRoomNotFound || err.is errPlayerNotInRoom then .ok { playerID, available := false } else .error err
  | .ok .done => .ok { playerID, available := false } -- no answer to a restore
  | .ok (.restored result) => restoreResponse playerID result

def restorePlayerState (playerID : String) (lastStateVersion : UInt64) (allowIncremental : Bool) :
    Prog Ans (Except GoErr RestorePlayerStateResponse) :=
  if playerID = "" then return .error (.new "player_id is required")
  else do return respond playerID (← restoreByPlayerIDSince playerID lastStateVersion allowIncremental)

/-! ## The client -/

structure Client where
  room : Option Room := none
  version : UInt64 := 0

def roomOfSnapshot (s : BattleRoomSnapshot) : Room where
  id := s.roomID
  tick := s.tick
  stateVersion := s.stateVersion
  status := ⟨s.status⟩
  players := insertAll (·.playerID) ∅ s.players
  updatedAt := s.updatedAtUnixMilli * 1000000

/-- The client acts on the mode and remembers the version of the response. -/
def Client.receive (c : Client) (response : RestorePlayerStateResponse) : Client where
  version := response.stateVersion
  room :=
    match response.mode, response.snapshot with
    | .full, .snapshot s => some (roomOfSnapshot s)
    | .full, _ => none
    | .delta, .delta d => c.room.map (·.removeThenUpsert d)
    | .delta, _ => c.room
    | .noop, _ => c.room

structure Session where
  world : World
  client : Client

/-- The changes anyone makes to rooms, and the restores of this client. A restore
meets the contributions `es` one after the other. -/
inductive Event
  | create (room : Room) (e : Env)
  | mutate (roomID : UInt64) (callback : Callback) (e : Env)
  | restore (es : Nat → Env)

def answerOf (e : Env) (w : World) (c : Cmd) : Ans c × World := w.answer e c

def Session.restored (playerID : String) (s : Session) (es : Nat → Env) : Except GoErr Reply :=
  ((restoreByPlayerIDSince playerID s.client.version true).alone answerOf es s.world).1

/-- The battle part of the gateway's `restoreState`: an error is not passed on. -/
def Session.step (playerID : String) (s : Session) : Event → Session
  | .create room e => { s with world := ((Call.create room).handler.alone answerOf (fun _ => e) s.world).2 }
  | .mutate roomID callback e =>
    { s with world := ((Call.mutate roomID callback).handler.alone answerOf (fun _ => e) s.world).2 }
  | .restore es =>
    let (response, world) := (restorePlayerState playerID s.client.version true).alone answerOf es s.world
    match response with
    | .error _ => { s with world }
    | .ok response => ⟨world, s.client.receive response⟩

def Session.Throughout (playerID : String) (P : Session → Event → Prop) : Session → List Event → Prop
  | _, [] => True
  | s, event :: events => P s event ∧ Throughout playerID P (s.step playerID event) events

def Session.Converges (playerID : String) (s : Session) : Event → Prop
  | .create _ _ => True
  | .mutate _ _ _ => True
  | .restore es => ∀ result, s.restored playerID es = .ok (.restored result) →
    ∃ room, (s.step playerID (.restore es)).client.room = some room ∧ room.Agrees result.room

end GameServer.Battle
