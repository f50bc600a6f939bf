import GameServer.Prog
import GameServer.Go
import Mathlib.Data.List.AList
import Mathlib.Data.List.Basic

/-!
# Streams between services

`Server.Connect` with `Router` behind it, and `Client` on the other end of a
stream. A section under a mutex, an access to an atomic or a channel, and a call
of the stream, of a message handler or of the event handler are one command
each. A `Connection` is named by the handler of its stream, a response channel
by the `Request` that made it.

The loops of `Server.Connect` and `readLoop` take the number of envelopes after
which their stream ends.
-/

namespace GameServer.Streaming

/-! ## Envelopes -/

/-- An enum of protobuf keeps the numbers it has no name for. -/
abbrev ServiceType := Int32

namespace ServiceType

def unspecified : ServiceType := 0
def gateway : ServiceType := 1
def lobby : ServiceType := 2
def usercenter : ServiceType := 3
def battle : ServiceType := 4

def string (t : ServiceType) : String :=
  if t = unspecified then "SERVICE_TYPE_UNSPECIFIED"
  else if t = gateway then "SERVICE_TYPE_GATEWAY"
  else if t = lobby then "SERVICE_TYPE_LOBBY"
  else if t = usercenter then "SERVICE_TYPE_USERCENTER"
  else if t = battle then "SERVICE_TYPE_BATTLE"
  else t.toInt.repr

end ServiceType

inductive EnvelopeKind
  | unspecified
  | hello
  | request
  | response
  | event
  | error
  | unrecognized (number : Int32)
  deriving DecidableEq

abbrev Bytes := List UInt8

structure InternalEnvelope where
  kind : EnvelopeKind := .unspecified
  requestID : UInt64 := 0
  sourceService : ServiceType := .unspecified
  targetService : ServiceType := .unspecified
  messageID : UInt32 := 0
  playerID : String := ""
  roomID : UInt64 := 0
  payload : Bytes := []
  errorCode : UInt32 := 0
  errorMessage : String := ""
  deriving DecidableEq

structure Hello where
  serviceType : ServiceType
  instanceID : String

structure Peer where
  serviceType : ServiceType
  instanceID : String
  connection : Nat
  deriving DecidableEq

structure MessageResult where
  messageID : UInt32
  message : Option (Except GoErr Bytes)

abbrev Outcome := Except GoErr (Option MessageResult)

def errConnectionClosed : GoErr := .new "stream connection closed"
def errRequestTimeout : GoErr := .new "stream request timed out"
def errEOF : GoErr := .new "EOF"

def statusError (code : String) (message : String) : GoErr := .new ("rpc error: code = " ++ code ++ " desc = " ++ message)

abbrev Handlers := AList fun _ : ServiceType × UInt32 => Nat

def Handlers.register (handlers : Handlers) (service : ServiceType) (messageID : UInt32) (handler : Nat) : Handlers :=
  handlers.insert (service, messageID) handler

/-- The protobuf encoding of `Hello`, the router's handlers, the service and
instance of the client, and whether it has an event handler. -/
structure Config where
  marshalHello : Hello → Except GoErr Bytes
  unmarshalHello : Bytes → Option Hello
  handlers : Handlers
  service : ServiceType
  instanceID : String
  onEvent : Bool

/-! ## Commands -/

inductive Cmd
  | streamRecv
  | newConnection
  | addPeer (peer : Peer)
  | removePeer (key : String)
  | peer (key : String)
  | closeConnection (connection : Nat)
  | connectionDone (connection : Nat)
  | streamSend (connection : Nat) (envelope : InternalEnvelope)
  | handleMessage (handler : Nat) (peer : Peer) (envelope : InternalEnvelope)
  | nextID
  | makeResponse
  | addRequest (id : UInt64) (response : Nat)
  | removeRequest (id : UInt64)
  | request (id : UInt64)
  | putResponse (response : Nat) (envelope : InternalEnvelope)
  | await (response : Nat)
  | clientDone
  | closeClient
  | clientSend (envelope : InternalEnvelope)
  | clientRecv
  | handleEvent (envelope : InternalEnvelope)

abbrev Ans : Cmd → Type
  | .streamRecv | .clientRecv | .await _ => Except GoErr InternalEnvelope
  | .newConnection | .makeResponse => Nat
  | .peer _ => Option Peer
  | .connectionDone _ | .clientDone => Bool
  | .streamSend _ _ | .clientSend _ => Option GoErr
  | .handleMessage _ _ _ => Outcome
  | .nextID => UInt64
  | .request _ => Option Nat
  | .addPeer _ | .removePeer _ | .closeConnection _ | .addRequest _ _ | .removeRequest _ | .putResponse _ _
  | .closeClient | .handleEvent _ => Unit

open Prog

/-! ## The router -/

def Peer.send (peer : Peer) (envelope : InternalEnvelope) : Prog Ans (Option GoErr) := do
  if ← perform (Cmd.connectionDone peer.connection) then return some errConnectionClosed
  perform (Cmd.streamSend peer.connection envelope)

def errorEnvelope (requestID : UInt64) (code : UInt32) (message : String) : InternalEnvelope :=
  { kind := .error, requestID, errorCode := code, errorMessage := message }

def responseEnvelope (peer : Peer) (envelope : InternalEnvelope) (messageID : UInt32) (payload : Bytes) :
    InternalEnvelope :=
  { kind := .response, requestID := envelope.requestID, sourceService := envelope.targetService,
    targetService := peer.serviceType, messageID, payload }

namespace Router

variable (c : Config)

def sendError (peer : Peer) (requestID : UInt64) (code : UInt32) (message : String) : Prog Ans (Option GoErr) :=
  peer.send (errorEnvelope requestID code message)

def dispatch (peer : Peer) (envelope : InternalEnvelope) (reply : Bool) : Prog Ans (Option GoErr) := do
  match c.handlers.lookup (envelope.targetService, envelope.messageID) with
  | none =>
    if reply then sendError peer envelope.requestID 2 "target service or message handler is unavailable"
    else return none
  | some handler =>
    match ← perform (Cmd.handleMessage handler peer envelope) with
    | .error err => if reply then sendError peer envelope.requestID 3 err.text else return some err
    | .ok none => return none
    | .ok (some result) =>
      match reply, result.message with
      | true, some (.ok payload) => peer.send (responseEnvelope peer envelope result.messageID payload)
      | true, some (.error err) => return some err
      | _, _ => return none

def handle (peer : Peer) (envelope : InternalEnvelope) : Prog Ans (Option GoErr) :=
  if envelope.kind = .event then dispatch c peer envelope false
  else if envelope.kind ≠ .request then sendError peer envelope.requestID 1 "unsupported envelope kind"
  else dispatch c peer envelope true

end Router

/-! ## The server -/

def peerKey (serviceType : ServiceType) (instanceID : String) : String := serviceType.string ++ "/" ++ instanceID

def Peer.key (peer : Peer) : String := peerKey peer.serviceType peer.instanceID

def parseHello (c : Config) (envelope : InternalEnvelope) : Except GoErr Hello :=
  if envelope.kind ≠ .hello then .error (.new "first stream message must be hello")
  else
    match c.unmarshalHello envelope.payload with
    | none => .error (.new "invalid hello payload")
    | some hello =>
      if hello.serviceType = .unspecified ∨ hello.instanceID = "" then
        .error (.new "hello service type and instance id are required")
      else .ok hello

namespace Server

variable (c : Config)

def serve (peer : Peer) : Nat → Prog Ans GoErr
  | 0 => return errEOF
  | n + 1 => do
    match ← perform Cmd.streamRecv with
    | .error err => return err
    | .ok envelope =>
      if envelope.kind = .hello then return statusError "InvalidArgument" "hello is only valid as the first message"
      else
        match ← Router.handle c peer envelope with
        | some err => return err
        | none => serve peer n

def connect (envelopes : Nat) : Prog Ans GoErr := do
  match ← perform Cmd.streamRecv with
  | .error err => return err
  | .ok first =>
    match parseHello c first with
    | .error err => return statusError "Unauthenticated" err.text
    | .ok hello =>
      let connection ← perform Cmd.newConnection
      let peer : Peer := ⟨hello.serviceType, hello.instanceID, connection⟩
      perform (Cmd.addPeer peer)
      let err ← serve c peer envelopes
      perform (Cmd.closeConnection connection)
      perform (Cmd.removePeer peer.key)
      return err

def peer (serviceType : ServiceType) (instanceID : String) : Prog Ans (Option Peer) :=
  perform (Cmd.peer (peerKey serviceType instanceID))

end Server

/-! ## The client -/

namespace Client

variable (c : Config)

def send (envelope : InternalEnvelope) : Prog Ans (Option GoErr) := do
  if ← perform Cmd.clientDone then return some errConnectionClosed
  perform (Cmd.clientSend envelope)

def request (envelope : InternalEnvelope) : Prog Ans (Except GoErr InternalEnvelope) := do
  let id ← perform Cmd.nextID
  let request := { envelope with requestID := id, kind := .request }
  let response ← perform Cmd.makeResponse
  perform (Cmd.addRequest id response)
  let result ← do
    match ← send request with
    | some err => pure (.error err)
    | none => perform (Cmd.await response)
  perform (Cmd.removeRequest id)
  return result

def sendEvent (envelope : InternalEnvelope) : Prog Ans (Option GoErr) := send { envelope with kind := .event }

def close : Prog Ans Unit := perform Cmd.closeClient

def sendHello : Prog Ans (Option GoErr) :=
  match c.marshalHello ⟨c.service, c.instanceID⟩ with
  | .error err => return some err
  | .ok payload => send { kind := .hello, sourceService := c.service, payload }

def receive (envelope : InternalEnvelope) : Prog Ans Unit := do
  if envelope.kind = .response ∨ envelope.kind = .error then
    match ← perform (Cmd.request envelope.requestID) with
    | some response => perform (Cmd.putResponse response envelope)
    | none => return ()
  else if envelope.kind = .event ∧ c.onEvent then perform (Cmd.handleEvent envelope)

def readLoop : Nat → Prog Ans Unit
  | 0 => close
  | n + 1 => do
    match ← perform Cmd.clientRecv with
    | .error _ => close
    | .ok envelope =>
      receive c envelope
      readLoop n

def newClient (envelopes : Nat) : Prog Ans (Option GoErr) := do
  match ← sendHello c with
  | some err =>
    close
    return some err
  | none =>
    readLoop c envelopes
    return none

end Client

/-! ## Calls -/

/-- A `Request` may here come before `NewClient` has sent its hello. -/
inductive Call
  | connect (envelopes : Nat)
  | peer (serviceType : ServiceType) (instanceID : String)
  | newClient (envelopes : Nat)
  | request (envelope : InternalEnvelope)
  | sendEvent (envelope : InternalEnvelope)
  | close

inductive Result
  | err (err : Option GoErr)
  | peer (peer : Option Peer)
  | response (response : Except GoErr InternalEnvelope)
  | done
  deriving DecidableEq

def Call.handler (c : Config) : Call → Prog Ans Result
  | .connect envelopes => return .err (some (← Server.connect c envelopes))
  | .peer serviceType instanceID => return .peer (← Server.peer serviceType instanceID)
  | .newClient envelopes => return .err (← Client.newClient c envelopes)
  | .request envelope => return .response (← Client.request envelope)
  | .sendEvent envelope => return .err (← Client.sendEvent envelope)
  | .close => do
    Client.close
    return .done

/-! ## The world -/

structure Handled where
  handler : Nat
  peer : Peer
  envelope : InternalEnvelope
  outcome : Outcome

/-- The tables of one server and of one client. `replied` and `sent` are what
went into the streams, newest first, with the connection or the call it came
from. The code keeps neither these two nor `handled`, `issued` (the ids the
calls of `Request` drew) and `opened`: the peers of the streams that have been
registered and not cleaned up, newest first. -/
structure World where
  peers : AList fun _ : String => Peer := ∅
  closed : Nat → Bool := fun _ => false
  replied : List (Nat × InternalEnvelope) := []
  handled : List Handled := []
  opened : List Peer := []
  nextID : UInt64 := 0
  requests : AList fun _ : UInt64 => Nat := ∅
  responses : Nat → Option InternalEnvelope := fun _ => none
  done : Bool := false
  sent : List (Nat × InternalEnvelope) := []
  issued : List (Nat × UInt64) := []

inductive Select
  | response
  | contextDone
  | clientDone
  deriving DecidableEq

/-- What comes from outside: the envelope a stream delivers, the error a send
ends with, what the message handler returns, the case `Request` selects. -/
structure Env where
  received : Except GoErr InternalEnvelope := .error errEOF
  failure : Option GoErr := none
  outcome : Outcome := .ok none
  select : Select := .response
  deriving Inhabited

namespace World

def addPeer (w : World) (peer : Peer) : World :=
  { w with peers := w.peers.insert peer.key peer, opened := peer :: w.opened }

def removePeer (w : World) (i : Nat) (key : String) : World :=
  { w with peers := w.peers.erase key, opened := w.opened.filter fun p => ¬ (p.connection = i ∧ p.key = key) }

def await (w : World) (response : Nat) : Select → Option (Except GoErr InternalEnvelope × World)
  | .response =>
    match w.responses response with
    | some envelope => some (.ok envelope, { w with responses := Function.update w.responses response none })
    | none => none
  | .contextDone => some (.error errRequestTimeout, w)
  | .clientDone => if w.done then some (.error errConnectionClosed, w) else none

end World

def exec (i : Nat) (e : Env) (w : World) : (c : Cmd) → Option (Ans c × World)
  | .streamRecv => some (e.received, w)
  | .newConnection => some (i, w)
  | .addPeer peer => some ((), w.addPeer peer)
  | .removePeer key => some ((), w.removePeer i key)
  | .peer key => some (w.peers.lookup key, w)
  | .closeConnection connection => some ((), { w with closed := Function.update w.closed connection true })
  | .connectionDone connection => some (w.closed connection, w)
  | .streamSend connection envelope =>
    match e.failure with
    | some err => some (some err, w)
    | none => some (none, { w with replied := (connection, envelope) :: w.replied })
  | .handleMessage handler peer envelope =>
    some (e.outcome, { w with handled := ⟨handler, peer, envelope, e.outcome⟩ :: w.handled })
  | .nextID => some (w.nextID + 1, { w with nextID := w.nextID + 1, issued := (i, w.nextID + 1) :: w.issued })
  | .makeResponse => some (i, { w with responses := Function.update w.responses i none })
  | .addRequest id response => some ((), { w with requests := w.requests.insert id response })
  | .removeRequest id => some ((), { w with requests := w.requests.erase id })
  | .request id => some (w.requests.lookup id, w)
  | .putResponse response envelope =>
    match w.responses response with
    -- The channel holds one envelope.
    | some _ => none
    | none => some ((), { w with responses := Function.update w.responses response (some envelope) })
  | .await response => w.await response e.select
  | .clientDone => some (w.done, w)
  | .closeClient => some ((), { w with done := true })
  | .clientSend envelope =>
    match e.failure with
    | some err => some (some err, w)
    | none => some (none, { w with sent := (i, envelope) :: w.sent })
  | .clientRecv => some (e.received, w)
  | .handleEvent _ => some ((), w)

abbrev State := Pool Ans World Result

def State.init (c : Config) (calls : List Call) : State := Pool.start {} (calls.map (Call.handler c))

end GameServer.Streaming
