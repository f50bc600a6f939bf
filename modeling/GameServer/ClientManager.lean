import GameServer.Prog
import GameServer.RegistryKeys
import GameServer.GoMap

/-!
# Discovery and the clients of other services

`ClientManager` over a `discovery.Registry`, static or etcd: `watchService`
follows the registrations of a service, `connect` and `monitor` keep a client
for each instance that is known. A call of the registry, a section under the
manager's mutex, a dial, the set-up of a stream and each wait are one command
each.

The registry is what it holds under each key. A registration lasts until its
`CloseFunc` runs or its lease runs out. `static` drops an event when the buffer
of a watch is full; a watch of etcd passes on every change that is made while it
is open, and may end at any time.

A goroutine started by `go m.monitor` waits in `monitors` until one of the
handlers that stand for such goroutines takes it up.
-/

namespace GameServer.Discovery

/-! ## The registry -/

structure Item where
  registration : Registration
  lease : Nat
  deriving DecidableEq

structure Watch where
  service : String
  buffer : List Event := []
  isOpen : Bool := true
  deriving DecidableEq

def watchBuffer : Nat := 16

structure Registry where
  kind : RegistryKind
  entries : AList fun _ : String => Item
  watches : Nat → Option Watch

namespace Registry

def push (kind : RegistryKind) (event : Event) (watch : Watch) : Watch :=
  if watch.isOpen ∧ (kind = .static → watch.buffer.length < watchBuffer) then
    { watch with buffer := watch.buffer ++ [event] }
  else watch

/-- `publishLocked` for one channel, and the loop of etcd's `Watch`, which waits
until there is room. -/
def deliver (kind : RegistryKind) (type : EventType) (key : String) (item : Registration) (watch : Watch) : Watch :=
  match kind.announces watch.service type key item with
  | some event => push kind event watch
  | none => watch

def publish (r : Registry) (type : EventType) (key : String) (item : Registration) : Registry :=
  { r with watches := fun i => (r.watches i).map (deliver r.kind type key item) }

/-- The errors of etcd's `Register`; the static one does not fail. -/
def refuses (r : Registry) (item : Registration) (failure : Option GoErr) : Option GoErr :=
  if r.kind = .static then none
  else if item.service = "" ∨ item.instanceID = "" ∨ item.address = "" then
    some (.new "service, instance and address are required")
  else failure

def register (r : Registry) (lease : Nat) (item : Registration) : Registry :=
  let key := r.kind.key item.service item.instanceID
  publish { r with entries := r.entries.insert key ⟨item, lease⟩ } .put key item

/-- The end of a registration. The one of etcd deletes the key only while it is
under its own lease. -/
def deregister (r : Registry) (lease : Nat) (item : Registration) : Registry :=
  let key := r.kind.key item.service item.instanceID
  if r.kind = .static ∨ (r.entries.lookup key).any (·.lease = lease) then
    publish { r with entries := r.entries.erase key } .delete key item
  else r

def discover (r : Registry) (service : String) (order : List Nat) : List Registration :=
  shuffle order ((r.entries.entries.filter fun e => r.kind.covers service e.1 e.2.registration).map (·.2.registration))

end Registry

/-! ## Commands of the manager -/

structure Config where
  serviceName : String
  instanceID : String

def Config.Own (m : Config) (registration : Registration) : Prop :=
  registration.instanceID = m.instanceID ∧ registration.service = m.serviceName

instance (m : Config) : DecidablePred m.Own := fun _ => inferInstanceAs (Decidable (_ ∧ _))

structure ManagedClient where
  registration : Registration
  client : Nat
  deriving DecidableEq

structure Monitor where
  key : String
  client : Nat
  deriving DecidableEq

inductive Cmd
  | contextErr
  | discover (service : String)
  | watch (service : String)
  | nextEvent
  | wait
  | upsert (key : String) (registration : Registration)
  | dial (key address : String)
  | newClient (key : String)
  | insert (key : String) (registration : Registration) (client : Nat)
  | closeClient (client : Nat)
  | startMonitor (monitor : Monitor)
  | takeMonitor
  | awaitDone (client : Nat)
  | drop (key : String) (client : Nat)
  | remove (key : String)
  | client (key : String)
  | anyClient (service : String)
  | cancel
  | closeAll
  | register (item : Registration)
  | deregister (item : Registration)
  | endWatch (watcher : Nat)

abbrev Ans : Cmd → Type
  | .contextErr | .wait | .upsert _ _ | .insert _ _ _ | .awaitDone _ => Bool
  | .discover _ => Except GoErr (List Registration)
  | .watch _ => Option GoErr
  | .nextEvent => Option Event
  | .dial _ _ => Except GoErr Unit
  | .newClient _ => Except GoErr Nat
  | .takeMonitor => Monitor
  | .drop _ _ => Option Registration
  | .remove _ | .client _ | .anyClient _ => Option Nat
  | .register _ => Option GoErr
  | .closeClient _ | .startMonitor _ | .cancel | .closeAll | .deregister _ | .endWatch _ => Unit

open Prog

def managerKey (service instanceID : String) : String := service ++ "/" ++ instanceID

namespace Manager

variable (m : Config)

def connect (key : String) (registration : Registration) : Prog Ans Unit := do
  if m.Own registration then return ()
  match ← perform (Cmd.dial key registration.address) with
  | .error _ => return ()
  | .ok () =>
    match ← perform (Cmd.newClient key) with
    | .error _ => return ()
    | .ok client =>
      if ← perform (Cmd.insert key registration client) then perform (Cmd.closeClient client)
      else perform (Cmd.startMonitor ⟨key, client⟩)

def monitor (key : String) (client : Nat) : Prog Ans Unit := do
  if !(← perform (Cmd.awaitDone client)) then return ()
  match ← perform (Cmd.drop key client) with
  | none => return ()
  | some known =>
    if ← perform Cmd.contextErr then return ()
    if ← perform Cmd.wait then connect m key known

def upsert (serviceName : String) (registration : Registration) : Prog Ans Unit := do
  let key := managerKey serviceName registration.instanceID
  if ← perform (Cmd.upsert key registration) then return ()
  connect m key registration

def remove (serviceName instanceID : String) : Prog Ans Unit := do
  match ← perform (Cmd.remove (managerKey serviceName instanceID)) with
  | some client => perform (Cmd.closeClient client)
  | none => return ()

def upsertAll (serviceName : String) : List Registration → Prog Ans Unit
  | [] => return ()
  | registration :: registrations => do
    upsert m serviceName registration
    upsertAll serviceName registrations

def handleEvent (serviceName : String) (event : Event) : Prog Ans Unit :=
  match event.type with
  | .put => upsert m serviceName event.registration
  | .delete => remove serviceName event.registration.instanceID

def handleEvents (serviceName : String) (again : Prog Ans Unit) : Nat → Prog Ans Unit
  | 0 => return ()
  | n + 1 => do
    match ← perform Cmd.nextEvent with
    | none => again
    | some event =>
      handleEvent m serviceName event
      handleEvents serviceName again n

/-- At most `n` rounds, and `n` events in each: then the goroutine is not
scheduled any more. -/
def watchService (serviceName : String) : Nat → Prog Ans Unit
  | 0 => return ()
  | n + 1 => do
    if ← perform Cmd.contextErr then return ()
    match ← perform (Cmd.discover serviceName) with
    | .ok registrations => upsertAll m serviceName registrations
    | .error _ => pure ()
    let again := do if ← perform Cmd.wait then watchService serviceName n
    match ← perform (Cmd.watch serviceName) with
    | some _ => again
    | none => handleEvents m serviceName again n

def close : Prog Ans Unit := do
  perform Cmd.cancel
  perform Cmd.closeAll

def client (service instanceID : String) : Prog Ans (Option Nat) := perform (Cmd.client (managerKey service instanceID))

def anyClient (service : String) : Prog Ans (Option Nat) := perform (Cmd.anyClient service)

end Manager

/-! ## Calls -/

/-- `monitor` is a goroutine, not yet told which client it is for; `register` the
life of a registration; `endWatch` the end of what a caller of `Watch` reads. -/
inductive Call
  | watchService (serviceName : String) (rounds : Nat)
  | monitor
  | upsert (serviceName : String) (registration : Registration)
  | remove (serviceName instanceID : String)
  | client (service instanceID : String)
  | anyClient (service : String)
  | close
  | register (item : Registration)
  | endWatch (watcher : Nat)

inductive Result
  | done
  | client (client : Option Nat)

def Call.handler (m : Config) : Call → Prog Ans Result
  | .watchService serviceName rounds => do
    Manager.watchService m serviceName rounds
    return .done
  | .monitor => do
    let job ← perform Cmd.takeMonitor
    Manager.monitor m job.key job.client
    return .done
  | .upsert serviceName registration => do
    Manager.upsert m serviceName registration
    return .done
  | .remove serviceName instanceID => do
    Manager.remove serviceName instanceID
    return .done
  | .client service instanceID => return .client (← Manager.client service instanceID)
  | .anyClient service => return .client (← Manager.anyClient service)
  | .close => do
    Manager.close
    return .done
  | .register item => do
    if (← perform (Cmd.register item)).isNone then perform (Cmd.deregister item)
    return .done
  | .endWatch watcher => do
    perform (Cmd.endWatch watcher)
    return .done

/-! ## The world -/

/-- `finished` says which clients are done. The code does not keep the last four:
the connects that are in progress, from the section that found the client
missing to the one that inserts it or the failure; the monitors that wait for
their client; and of each watcher what it has discovered since it last had a
watch, and the event it has received and not yet handled. -/
structure World where
  registry : Registry
  known : AList fun _ : String => Registration := ∅
  clients : AList fun _ : String => ManagedClient := ∅
  nextClient : Nat := 0
  finished : Nat → Bool := fun _ => false
  monitors : List Monitor := []
  cancelled : Bool := false
  connecting : List (Nat × String) := []
  monitoring : List (Nat × String) := []
  discovered : Nat → Option (List Registration) := fun _ => none
  received : Nat → Option Event := fun _ => none

/-- What comes from outside: an error, the order of a map, whether a select or a
wait takes the end of the context, whether the stream ends now. -/
structure Env where
  failure : Option GoErr := none
  order : List Nat := []
  contextDone : Bool := false
  streamEnds : Bool := false
  deriving Inhabited

namespace World

def release (w : World) (i : Nat) (key : String) : World :=
  { w with connecting := w.connecting.filter (· ≠ (i, key)) }

def upsert (m : Config) (w : World) (i : Nat) (key : String) (registration : Registration) : Bool × World :=
  let w := { w with known := w.known.insert key registration, received := Function.update w.received i none }
  if key ∈ w.clients then (true, w)
  else if m.Own registration then (false, w)
  else (false, { w with connecting := (i, key) :: w.connecting })

def insert (w : World) (i : Nat) (key : String) (registration : Registration) (client : Nat) : Bool × World :=
  let w := w.release i key
  if key ∈ w.clients then (true, w)
  else (false, { w with clients := w.clients.insert key ⟨registration, client⟩ })

def drop (m : Config) (w : World) (i : Nat) (key : String) (client : Nat) : Option Registration × World :=
  let clients := if (w.clients.lookup key).any (·.client = client) then w.clients.erase key else w.clients
  let w := { w with clients, monitoring := w.monitoring.filter (· ≠ (i, key)) }
  match w.known.lookup key with
  | none => (none, w)
  | some known =>
    (some known, if m.Own known then w else { w with connecting := (i, key) :: w.connecting })

def remove (w : World) (i : Nat) (key : String) : Option Nat × World :=
  ((w.clients.lookup key).map ManagedClient.client,
    { w with known := w.known.erase key, clients := w.clients.erase key, received := Function.update w.received i none })

def finish (w : World) (client : Nat) : World := { w with finished := Function.update w.finished client true }

def ofService (service : String) (key : String) : Bool := (service ++ "/").toList.isPrefixOf key.toList

def anyClient (w : World) (service : String) (order : List Nat) : Option Nat :=
  ((shuffle order w.clients.entries).find? fun e => ofService service e.1).map (·.2.client)

def nextEvent (w : World) (i : Nat) : Option (Option Event × World) :=
  match w.registry.watches i with
  | some ⟨service, event :: buffer, isOpen⟩ =>
    some (some event, { w with
      registry := { w.registry with watches := Function.update w.registry.watches i (some ⟨service, buffer, isOpen⟩) }
      received := Function.update w.received i (some event) })
  | some ⟨_, [], false⟩ => some (none, w)
  | _ => none

def endWatch (w : World) (watcher : Nat) : Option World :=
  if w.registry.kind ≠ .static ∨ w.cancelled then
    let ended := (w.registry.watches watcher).map fun watch => { watch with isOpen := false }
    some { w with registry := { w.registry with watches := Function.update w.registry.watches watcher ended } }
  else none

def watch (w : World) (i : Nat) (service : String) : World :=
  { w with
    registry := { w.registry with watches := Function.update w.registry.watches i (some { service }) }
    discovered := Function.update w.discovered i none }

def closeAll (w : World) : World :=
  { w with
    clients := ∅
    finished := fun client => w.finished client || (w.clients.entries.any fun e => e.2.client == client) }

end World

def exec (m : Config) (i : Nat) (e : Env) (w : World) : (c : Cmd) → Option (Ans c × World)
  | .contextErr => some (w.cancelled, w)
  | .discover service =>
    match e.failure with
    | some err => if w.registry.kind ≠ .static then some (.error err, w) else none
    | none =>
      let registrations := w.registry.discover service e.order
      some (.ok registrations, { w with discovered := Function.update w.discovered i (some registrations) })
  | .watch service =>
    match e.failure with
    | some err => some (some err, { w with discovered := Function.update w.discovered i none })
    | none => some (none, w.watch i service)
  | .nextEvent => w.nextEvent i
  | .wait => if e.contextDone then (if w.cancelled then some (false, w) else none) else some (true, w)
  | .upsert key registration => some (w.upsert m i key registration)
  | .dial key _ =>
    match e.failure with
    | some err => some (.error err, w.release i key)
    | none => some (.ok (), w)
  | .newClient key =>
    match e.failure with
    | some err => some (.error err, w.release i key)
    | none => some (.ok w.nextClient, { w with nextClient := w.nextClient + 1 })
  | .insert key registration client => some (w.insert i key registration client)
  | .closeClient client => some ((), w.finish client)
  | .startMonitor monitor => some ((), { w with monitors := w.monitors ++ [monitor] })
  | .takeMonitor =>
    match w.monitors with
    | [] => none
    | monitor :: monitors => some (monitor, { w with monitors, monitoring := (i, monitor.key) :: w.monitoring })
  | .awaitDone client =>
    if e.contextDone then (if w.cancelled then some (false, w) else none)
    else if w.finished client then some (true, w)
    else if e.streamEnds then some (true, w.finish client)
    else none
  | .drop key client => some (w.drop m i key client)
  | .remove key => some (w.remove i key)
  | .client key => some ((w.clients.lookup key).map ManagedClient.client, w)
  | .anyClient service => some (w.anyClient service e.order, w)
  | .cancel => some ((), { w with cancelled := true })
  -- `Close` has cancelled the context before.
  | .closeAll => if w.cancelled then some ((), w.closeAll) else none
  | .register item =>
    match w.registry.refuses item e.failure with
    | some err => some (some err, w)
    | none => some (none, { w with registry := w.registry.register i item })
  | .deregister item => some ((), { w with registry := w.registry.deregister i item })
  | .endWatch watcher => (w.endWatch watcher).map ((), ·)

abbrev State := Pool Ans World Result

def State.init (m : Config) (registry : Registry) (calls : List Call) : State :=
  Pool.start { registry } (calls.map (Call.handler m))

end GameServer.Discovery
