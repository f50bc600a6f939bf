import GameServer.Prog
import GameServer.Go
import GameServer.GoMap

/-!
# The gateway's sessions

`session.Manager` over `MemoryStore` or `RedisStore`, the tables each manager
keeps, and the part of the gateways that closes preempted connections:
`Handler.Preempt`, the broadcast over Redis and `Connection.BindSession`.

Any number of managers share one store. A store call, a section under the
manager's mutex, the emission of an event and the drawing of an id are one
command each. A store call may fail without effect.
-/

namespace GameServer.Gateway

/-! ## Records and events -/

def errNotFound : GoErr := .new "session not found"
def errInvalidToken : GoErr := .new "invalid resume token"
def errSessionExpiry : GoErr := .new "session expired"
def errSessionConflict : GoErr := .new "session was changed concurrently"

inductive SessionState
  | unset
  | authenticated
  | active
  | reconnecting
  | expired
  deriving DecidableEq

/-- The fields default to Go's zero values. The epoch is a `uint64` that starts
at one and grows by one with each resume; it stands here as a natural number. -/
structure Record where
  sessionID : String := ""
  accountID : String := ""
  playerID : String := ""
  gatewayInstanceID : String := ""
  connectionID : String := ""
  connectionEpoch : Nat := 0
  state : SessionState := .unset
  resumeTokenHash : String := ""
  expireAt : Time := 0
  deriving DecidableEq

inductive LifecycleType
  | connected
  | disconnected
  | resumed
  | expired
  | preempted
  deriving DecidableEq

def LifecycleType.text : LifecycleType → String
  | .connected => "connected"
  | .disconnected => "disconnected"
  | .resumed => "resumed"
  | .expired => "expired"
  | .preempted => "preempted"

structure LifecycleEvent where
  eventID : String
  type : LifecycleType
  sessionID : String
  accountID : String
  playerID : String
  connectionID : String
  connectionEpoch : Nat
  gatewayInstanceID : String
  occurredAt : Time
  deriving DecidableEq

def lifecycleEvent (type : LifecycleType) (r : Record) (now : Time) : LifecycleEvent where
  eventID := r.sessionID ++ ":" ++ toString r.connectionEpoch ++ ":" ++ type.text
  type := type
  sessionID := r.sessionID
  accountID := r.accountID
  playerID := r.playerID
  connectionID := r.connectionID
  connectionEpoch := r.connectionEpoch
  gatewayInstanceID := r.gatewayInstanceID
  occurredAt := now

/-! ## The shared world -/

inductive StoreKind
  | memory
  | redis
  deriving DecidableEq

inductive Key
  | session (id : String)
  | account (accountID : String)
  deriving DecidableEq

structure Entry where
  record : Record
  deadline : Time := 0
  deriving DecidableEq

structure Tables where
  connections : AList fun _ : String => String := ∅
  accountConnections : AList fun _ : String => String := ∅

/-- A connection of `Handler.connections`; `closed` once `Handler.Preempt` has
told it to close. -/
structure Connection where
  gateway : Nat
  sessionID : String := ""
  sessionEpoch : Nat := 0
  closed : Bool := false
  deriving DecidableEq

structure Timer where
  disconnected : Record
  due : Time
  fired : Bool := false
  deriving DecidableEq

structure Notice where
  sessionID : String
  connectionID : String
  connectionEpoch : Nat
  deriving DecidableEq

def Record.notice (r : Record) : Notice := ⟨r.sessionID, r.connectionID, r.connectionEpoch⟩

structure World where
  store : StoreKind
  data : AList fun _ : Key => Entry
  tables : Nat → Tables
  events : List LifecycleEvent
  timers : List Timer
  connections : AList fun _ : String => Connection
  gateways : Nat
  inbox : Nat → List Notice
  issued : List (String × Nat)
  clock : Time

/-- What the environment contributes to one step: the time that passes before
it, how long ago the caller computed a TTL, the id that would be drawn, the
failure of the store, if any, and the order of a loop over a map. -/
structure Env where
  delay : Nat := 0
  lag : Nat := 0
  id : String := ""
  fail : Option String := none
  order : List Nat := []

instance : Inhabited Env := ⟨{}⟩

/-! ## The stores -/

def World.lookup (w : World) (k : Key) : Option Record :=
  match w.data.lookup k with
  | none => none
  | some entry =>
    if w.store = .redis ∧ entry.deadline ≤ w.clock then none else some entry.record

/-- `RedisStore.key`: an id that begins with `account:` names an account's slot. -/
def World.key (w : World) (id : String) : Key :=
  if w.store = .redis ∧ id.toList.take 8 = "account:".toList then .account (String.ofList (id.toList.drop 8))
  else .session id

def millisecond : Nat := 1000000

def World.ttl (w : World) (e : Env) (r : Record) : Nat := r.expireAt - (w.clock - e.lag)

def World.put (w : World) (k : Key) (r : Record) (deadline : Time) : World :=
  { w with data := w.data.insert k ⟨r, deadline⟩ }

def World.create (w : World) (e : Env) (r : Record) : Except GoErr World :=
  match w.store with
  | .memory =>
    if (w.lookup (.session r.sessionID)).isSome then .error (.new ("session " ++ r.sessionID ++ " already exists"))
    else .ok (w.put (.session r.sessionID) r 0)
  | .redis =>
    if w.ttl e r = 0 then .error errSessionExpiry
    else if (w.lookup (w.key r.sessionID)).isSome then .error (.new "session already exists")
    -- the driver rounds a shorter TTL up to one millisecond
    else .ok (w.put (w.key r.sessionID) r (w.clock + max 1 (w.ttl e r / millisecond) * millisecond))

def World.get (w : World) (id : String) : Except GoErr Record :=
  match w.lookup (w.key id) with
  | some r => .ok r
  | none => .error errNotFound

def World.compareAndSwap (w : World) (e : Env) (expected updated : Record) : Except GoErr (Bool × World) :=
  match w.store with
  | .memory =>
    match w.lookup (.session expected.sessionID) with
    | none => .error errNotFound
    | some current =>
      if current = expected then .ok (true, w.put (.session updated.sessionID) updated 0) else .ok (false, w)
  | .redis =>
    if w.ttl e updated = 0 then .error errSessionExpiry
    else if w.lookup (w.key updated.sessionID) ≠ some expected then .ok (false, w)
    -- `PX 0` is refused
    else if w.ttl e updated / millisecond = 0 then .error (.driver "invalid expire time")
    else .ok (true, w.put (w.key updated.sessionID) updated (w.clock + w.ttl e updated / millisecond * millisecond))

def World.delete (w : World) (id : String) : World := { w with data := w.data.erase (w.key id) }

def World.claimAccount (w : World) (e : Env) (accountID : String) (r : Record) :
    Except GoErr (Option Record × World) :=
  match w.store with
  | .memory =>
    .ok (((shuffle e.order w.data.entries).find? fun ⟨_, entry⟩ =>
      entry.record.sessionID ≠ r.sessionID ∧ entry.record.accountID = accountID ∧
        entry.record.connectionID ≠ "").map (·.2.record), w)
  | .redis =>
    if w.ttl e r = 0 then .error errSessionExpiry
    else if w.ttl e r / millisecond = 0 then .error (.driver "invalid expire time")
    else .ok (w.lookup (.account accountID),
      w.put (.account accountID) r (w.clock + w.ttl e r / millisecond * millisecond))

def World.releaseAccount (w : World) (accountID connectionID : String) : World :=
  match w.store with
  | .memory =>
    { w with
      data := mapAll (fun _ entry =>
        if entry.record.accountID = accountID ∧ entry.record.connectionID = connectionID then
          { entry with record := { entry.record with connectionID := "" } }
        else entry) w.data }
  | .redis =>
    match w.lookup (.account accountID) with
    | none => w
    | some r => if r.connectionID = connectionID then { w with data := w.data.erase (.account accountID) } else w

/-! ## Tables, notices and connections -/

/-- The locked section of `Create` and `Resume`; the answer is the account's
previous connection in the table, `""` if there is none. -/
def World.enter (w : World) (m : Nat) (accountID connectionID sessionID : String) : String × World :=
  let t := w.tables m
  ((t.accountConnections.lookup accountID).getD "",
    { w with
      tables := Function.update w.tables m
        { connections := t.connections.insert connectionID sessionID
          accountConnections := t.accountConnections.insert accountID connectionID } })

def World.leave (w : World) (m : Nat) (accountID sessionID : String) : World :=
  let t := w.tables m
  let mine : Bool := match t.accountConnections.lookup accountID with
    | some connection => t.connections.lookup connection = some sessionID
    | none => false
  { w with
    tables := Function.update w.tables m
      { connections := keepAll (fun _ sid => sid ≠ sessionID) t.connections
        accountConnections := if mine then t.accountConnections.erase accountID else t.accountConnections } }

def World.preempt (w : World) (g : Nat) (n : Notice) : World :=
  match w.connections.lookup n.connectionID with
  | none => w
  | some c =>
    if c.gateway ≠ g then w
    else if c.sessionID ≠ n.sessionID ∨ (n.connectionEpoch ≠ 0 ∧ c.sessionEpoch ≠ n.connectionEpoch) then w
    else { w with connections := w.connections.insert n.connectionID { c with closed := true } }

def World.publish (w : World) (n : Notice) : World :=
  { w with inbox := fun g => if g < w.gateways then w.inbox g ++ [n] else w.inbox g }

def World.deliver (w : World) (g : Nat) : Option World :=
  match w.inbox g with
  | [] => none
  | n :: rest => some (World.preempt { w with inbox := Function.update w.inbox g rest } g n)

def World.bindSession (w : World) (connectionID sessionID : String) (epoch : Nat) : World :=
  match w.connections.lookup connectionID with
  | none => w
  | some c =>
    { w with connections := w.connections.insert connectionID { c with sessionID, sessionEpoch := epoch } }

def World.schedule (w : World) (disconnected : Record) (expiresAt : Time) : World :=
  let due := if expiresAt ≤ w.clock then w.clock + millisecond else expiresAt
  { w with timers := w.timers ++ [{ disconnected, due }] }

def World.fire (w : World) (k : Nat) : Option (Record × World) :=
  match w.timers[k]? with
  | none => none
  | some t =>
    if t.fired ∨ w.clock < t.due then none
    else some (t.disconnected, { w with timers := w.timers.set k { t with fired := true } })

/-! ## Commands -/

inductive Cmd
  | now
  | randomID
  | create (r : Record)
  | get (id : String)
  | compareAndSwap (expected updated : Record)
  | delete (id : String)
  | claimAccount (accountID : String) (r : Record)
  | releaseAccount (accountID connectionID : String)
  | enter (m : Nat) (accountID connectionID sessionID : String)
  | leave (m : Nat) (accountID sessionID : String)
  | emit (event : LifecycleEvent)
  | preempt (g : Nat) (n : Notice)
  | publish (n : Notice)
  | deliver (g : Nat)
  | bindSession (connectionID sessionID : String) (epoch : Nat)
  | schedule (disconnected : Record) (expiresAt : Time)
  | fire (k : Nat)
  deriving DecidableEq

@[reducible] def Ans : Cmd → Type
  | .now => Time
  | .randomID => Except GoErr String
  | .create _ => Except GoErr Unit
  | .get _ => Except GoErr Record
  | .compareAndSwap _ _ => Except GoErr Bool
  | .delete _ => Except GoErr Unit
  | .claimAccount _ _ => Except GoErr (Option Record)
  | .releaseAccount _ _ => Except GoErr Unit
  | .enter _ _ _ _ => String
  | .leave _ _ _ => Unit
  | .emit _ => Unit
  | .preempt _ _ => Unit
  | .publish _ => Unit
  | .deliver _ => Unit
  | .bindSession _ _ _ => Unit
  | .schedule _ _ => Unit
  | .fire _ => Record

def isRandomID (id : String) : Bool := id.length == 32 && id.toList.all fun c => c.isDigit || ('a' ≤ c && c ≤ 'f')

def commit (w : World) : Except GoErr World → Except GoErr Unit × World
  | .ok w' => (.ok (), w')
  | .error err => (.error err, w)

def commitWith {α : Type} (w : World) : Except GoErr (α × World) → Except GoErr α × World
  | .ok (a, w') => (.ok a, w')
  | .error err => (.error err, w)

/-- What a command of handler `i` does when the store works. An id is drawn
only once; a gateway waits for a notice and a timer for its time. -/
def World.answer (w : World) (i : Nat) (e : Env) : (c : Cmd) → Option (Ans c × World)
  | .now => some (w.clock, w)
  | .randomID =>
    if isRandomID e.id ∧ e.id ∉ w.issued.map (·.1) then
      some (.ok e.id, { w with issued := (e.id, i) :: w.issued })
    else none
  | .create r => some (commit w (w.create e r))
  | .get id => some (w.get id, w)
  | .compareAndSwap expected updated => some (commitWith w (w.compareAndSwap e expected updated))
  | .delete id => some (.ok (), w.delete id)
  | .claimAccount accountID r => some (commitWith w (w.claimAccount e accountID r))
  | .releaseAccount accountID connectionID => some (.ok (), w.releaseAccount accountID connectionID)
  | .enter m accountID connectionID sessionID => some (w.enter m accountID connectionID sessionID)
  | .leave m accountID sessionID => some ((), w.leave m accountID sessionID)
  | .emit event => some ((), { w with events := w.events ++ [event] })
  | .preempt g n => some ((), w.preempt g n)
  | .publish n => some ((), w.publish n)
  | .deliver g => (w.deliver g).map ((), ·)
  | .bindSession connectionID sessionID epoch => some ((), w.bindSession connectionID sessionID epoch)
  | .schedule disconnected expiresAt => some ((), w.schedule disconnected expiresAt)
  | .fire k => w.fire k

/-- The answer to a call that fails without effect. `Publish` ignores its error. -/
def failed (text : String) : (c : Cmd) → Option (Ans c)
  | .randomID => some (.error (.driver text))
  | .create _ => some (.error (.driver text))
  | .get _ => some (.error (.driver text))
  | .compareAndSwap _ _ => some (.error (.driver text))
  | .delete _ => some (.error (.driver text))
  | .claimAccount _ _ => some (.error (.driver text))
  | .releaseAccount _ _ => some (.error (.driver text))
  | .publish _ => some ()
  | .now | .enter _ _ _ _ | .leave _ _ _ | .emit _ | .preempt _ _ | .deliver _ | .bindSession _ _ _ | .schedule _ _
  | .fire _ => none

def exec (i : Nat) (e : Env) (w : World) (c : Cmd) : Option (Ans c × World) :=
  let w := { w with clock := w.clock + e.delay }
  match e.fail with
  | none => w.answer i e c
  | some text => (failed text c).map (·, w)

/-! ## The manager -/

structure Manager where
  index : Nat
  gatewayID : String
  sessionTTL : Nat
  reconnectGrace : Nat
  deriving DecidableEq

structure Created where
  record : Record
  resumeToken : String
  deriving DecidableEq

def perform (c : Cmd) : Prog Ans (Ans c) := Prog.perform c

def emitLifecycle (type : LifecycleType) (r : Record) (now : Time) : Prog Ans Unit :=
  perform (.emit (lifecycleEvent type r now))

def preemptPrevious (m : Manager) (previous : Option Record) (connectionID : String) (now : Time) : Prog Ans Unit :=
  match previous with
  | none => return
  | some r =>
    if r.connectionID ≠ "" ∧ r.connectionID ≠ connectionID then do
      perform (.preempt m.index r.notice)
      perform (.publish r.notice)
      emitLifecycle .preempted r now
    else return

section
variable (hash : String → String)

def create (m : Manager) (accountID connectionID : String) (now : Time) (playerID : String) :
    Prog Ans (Except GoErr Created) := do
  match ← perform .randomID with
  | .error err => return .error err
  | .ok sid =>
    match ← perform .randomID with
    | .error err => return .error err
    | .ok token =>
      let r : Record :=
        { sessionID := sid, accountID, playerID, gatewayInstanceID := m.gatewayID, connectionID, connectionEpoch := 1,
          state := .authenticated, resumeTokenHash := hash token, expireAt := now + m.sessionTTL }
      match ← perform (.create r) with
      | .error err => return .error err
      | .ok () =>
        match ← perform (.claimAccount accountID r) with
        | .error err => return .error err
        | .ok claimed =>
          let previousID : String ← perform (.enter m.index accountID connectionID sid)
          let previous : Option Record := match claimed with
            | some p => some p
            | none => if previousID ≠ "" then some { accountID, connectionID := previousID } else none
          preemptPrevious m previous connectionID now
          emitLifecycle .connected r now
          return .ok ⟨r, token⟩

/-- `epoch = 0` stands for a call without epoch, which the code treats alike. -/
def disconnect (m : Manager) (sessionID connectionID : String) (now : Time) (epoch : Nat) :
    Prog Ans (Except GoErr Unit) := do
  match ← perform (.get sessionID) with
  | .error err => return .error err
  | .ok expected =>
    if connectionID ≠ "" ∧ expected.connectionID ≠ connectionID then return .ok ()
    if epoch ≠ 0 ∧ expected.connectionEpoch ≠ epoch then return .ok ()
    let r : Record :=
      { expected with state := .reconnecting, connectionID := "", expireAt := now + m.reconnectGrace }
    -- `saveVersion` drops the answer of `CompareAndSwap`
    match ← perform (.compareAndSwap expected r) with
    | .error err => return .error err
    | .ok _ =>
      match ← perform (.releaseAccount r.accountID expected.connectionID) with
      | .error err => return .error err
      | .ok () =>
        perform (.leave m.index r.accountID sessionID)
        emitLifecycle .disconnected expected now
        perform (.schedule expected (now + m.reconnectGrace))
        return .ok ()

def resume (m : Manager) (sessionID token connectionID : String) (now : Time) : Prog Ans (Except GoErr Created) := do
  match ← perform (.get sessionID) with
  | .error err => return .error err
  | .ok expected =>
    if expected.expireAt ≤ now then
      let _ ← perform (.compareAndSwap expected { expected with state := .expired })
      return .error errSessionExpiry
    if hash token ≠ expected.resumeTokenHash then return .error errInvalidToken
    match ← perform .randomID with
    | .error err => return .error err
    | .ok nextToken =>
      let r : Record :=
        { expected with
          state := .authenticated, connectionID, gatewayInstanceID := m.gatewayID
          connectionEpoch := expected.connectionEpoch + 1, resumeTokenHash := hash nextToken
          expireAt := now + m.sessionTTL }
      match ← perform (.compareAndSwap expected r) with
      | .error err => return .error err
      | .ok false => return .error errSessionConflict
      | .ok true =>
        match ← perform (.claimAccount r.accountID r) with
        | .error err => return .error err
        | .ok claimed =>
          let previousID : String ← perform (.enter m.index r.accountID connectionID sessionID)
          let previous : Option Record := match claimed with
            | some p => some p
            | none =>
              if previousID ≠ "" ∧ previousID ≠ connectionID then
                some { accountID := r.accountID, connectionID := previousID }
              else none
          preemptPrevious m previous connectionID now
          emitLifecycle .resumed r now
          return .ok ⟨r, nextToken⟩

end

def expire (k : Nat) : Prog Ans Unit := do
  let disconnected : Record ← perform (.fire k)
  let now : Time ← perform .now
  match ← perform (.get disconnected.sessionID) with
  | .error err =>
    if err.is errNotFound then emitLifecycle .expired { disconnected with state := .expired } now else return
  | .ok record =>
    if record.state ≠ .reconnecting ∨ record.connectionEpoch ≠ disconnected.connectionEpoch ∨ now < record.expireAt then
      return
    match ← perform (.delete disconnected.sessionID) with
    | .error _ => return
    | .ok () =>
      let _ ← perform (.releaseAccount record.accountID "")
      emitLifecycle .expired { record with state := .expired } now

/-! ## The dispatcher -/

inductive Reply
  | done
  | created (c : Created)
  deriving DecidableEq

abbrev Handler := Prog Ans (Except GoErr Reply)

def bindAndReply (connectionID : String) : Except GoErr Created → Handler
  | .error err => return .error err
  | .ok c => do
    perform (.bindSession connectionID c.record.sessionID c.record.connectionEpoch)
    return .ok (.created c)

section
variable (hash : String → String)

/-- `Dispatcher.login` and `refreshLogin`, once the account is authenticated
and its player known. -/
def login (m : Manager) (connectionID accountID playerID : String) : Handler := do
  let now : Time ← perform .now
  bindAndReply connectionID (← create hash m accountID connectionID now playerID)

def resumeLogin (m : Manager) (connectionID sessionID token : String) : Handler :=
  if sessionID = "" ∨ token = "" then return .error (.new "session credentials are required")
  else do
    let now : Time ← perform .now
    bindAndReply connectionID (← resume hash m sessionID token connectionID now)

inductive Call
  | create (m : Manager) (accountID connectionID : String) (now : Time) (playerID : String)
  | disconnect (m : Manager) (sessionID connectionID : String) (now : Time) (epoch : Nat)
  | resume (m : Manager) (sessionID token connectionID : String) (now : Time)
  | expire (k : Nat)
  | login (m : Manager) (connectionID accountID playerID : String)
  | resumeLogin (m : Manager) (connectionID sessionID token : String)
  | deliver (g : Nat)
  deriving DecidableEq

def Call.handler : Call → Handler
  | .create m accountID connectionID now playerID => do
    return (← Gateway.create hash m accountID connectionID now playerID).map .created
  | .disconnect m sessionID connectionID now epoch => do
    return (← Gateway.disconnect m sessionID connectionID now epoch).map fun _ => .done
  | .resume m sessionID token connectionID now => do
    return (← Gateway.resume hash m sessionID token connectionID now).map .created
  | .expire k => do
    Gateway.expire k
    return .ok .done
  | .login m connectionID accountID playerID => Gateway.login hash m connectionID accountID playerID
  | .resumeLogin m connectionID sessionID token => Gateway.resumeLogin hash m connectionID sessionID token
  | .deliver g => do
    perform (.deliver g)
    return .ok .done

end

/-! ## Runs -/

abbrev State := Pool Ans World (Except GoErr Reply)

def World.init (store : StoreKind) (gateways : Nat) (connections : AList fun _ : String => Connection) (clock : Time) :
    World where
  store := store
  data := ∅
  tables := fun _ => {}
  events := []
  timers := []
  connections := connections
  gateways := gateways
  inbox := fun _ => []
  issued := []
  clock := clock

def State.init (hash : String → String) (w : World) (calls : List Call) : State :=
  Pool.start w (calls.map (Call.handler hash))

end GameServer.Gateway
