import GameServer.Prog
import GameServer.Collection
import GameServer.Go
import Mathlib.Data.List.AList

/-!
# The lobby service: players, assets, ledger and snapshots

`PlayerComponent.ensurePlayer`, `PlayerComponent.settlement` and
`PlayerComponent.restore` over the four MongoDB collections of the lobby. Each
plain read is one command, and so is the plain write of `restore`; the function
passed to `UnitOfWork.Execute` is one command as well, which commits all its
writes or none. Any read, transaction or call can fail without effect.
-/

namespace GameServer.Lobby

/-! ## Domain -/

def errPlayerNotFound : GoErr := .new "player not found"
def errAssetNotFound : GoErr := .new "player assets not found"
def errInvalidPlayer : GoErr := .new "invalid player"
def errInvalidSettlement : GoErr := .new "invalid settlement"
def errSettlementNotFound : GoErr := .new "settlement not found"
def errSettlementApplied : GoErr := .new "settlement already applied"
def errSettlementConflict : GoErr := .new "settlement id conflict"
def errInsufficientCurrency : GoErr := .new "insufficient currency"

structure Player where
  id : String
  accountID : String
  nickname : String
  avatar : String := ""
  region : String
  isDefault : Bool
  profileVersion : UInt64
  createdAt : Time
  updatedAt : Time
  deriving DecidableEq

def Player.validate (p : Player) : Except GoErr Unit :=
  if p.id = "" ∨ p.accountID = "" ∨ p.nickname = "" ∨ p.region = "" ∨ p.createdAt = 0 ∨ p.updatedAt = 0 then
    .error errInvalidPlayer
  else .ok ()

abbrev Currency := AList fun _ : String => Int64

structure Assets where
  playerID : String
  currency : Currency
  assetVersion : UInt64
  updatedAt : Time
  deriving DecidableEq

def Assets.balance (a : Assets) (assetType : String) : Int64 := (a.currency.lookup assetType).getD 0

structure Settlement where
  id : String
  playerID : String
  assetType : String
  delta : Int64
  reason : String
  source : String
  createdAt : Time
  deriving DecidableEq

def Settlement.validate (s : Settlement) : Except GoErr Unit :=
  if s.id = "" ∨ s.playerID = "" ∨ s.assetType = "" ∨ s.delta = 0 ∨ s.reason = "" ∨ s.source = "" ∨ s.createdAt = 0 then
    .error errInvalidSettlement
  else .ok ()

structure Snapshot where
  player : Player
  assets : Assets
  schemaVersion : UInt32
  createdAt : Time
  deriving DecidableEq

def Snapshot.stateVersion (s : Snapshot) : UInt64 :=
  if s.player.profileVersion ≥ s.assets.assetVersion then s.player.profileVersion else s.assets.assetVersion

/-! ## Collections -/

/-- A document of `player_snapshots`; the other documents have the fields of
their domain types. -/
structure SnapshotDocument where
  playerID : String
  accountID : String
  nickname : String
  region : String
  profileVersion : UInt64
  assetVersion : UInt64
  currency : Currency
  schemaVersion : UInt32
  createdAt : Time
  deriving DecidableEq

def snapshotDocumentFromDomain (s : Snapshot) : SnapshotDocument where
  playerID := s.player.id
  accountID := s.player.accountID
  nickname := s.player.nickname
  region := s.player.region
  profileVersion := s.player.profileVersion
  assetVersion := s.assets.assetVersion
  currency := s.assets.currency
  schemaVersion := s.schemaVersion
  createdAt := s.createdAt

def snapshotDomainFromDocument (d : SnapshotDocument) : Snapshot where
  player :=
    { id := d.playerID, accountID := d.accountID, nickname := d.nickname, region := d.region, isDefault := false,
      profileVersion := d.profileVersion, createdAt := 0, updatedAt := 0 }
  assets := { playerID := d.playerID, currency := d.currency, assetVersion := d.assetVersion, updatedAt := 0 }
  schemaVersion := d.schemaVersion
  createdAt := d.createdAt

def playerIndexes : Index Player := (Index.on (·.id)).and (.partialOn (·.isDefault) (·.accountID))
def assetIndexes : Index Assets := .on (·.playerID)
def ledgerIndexes : Index Settlement := .on (·.id)
def snapshotIndexes : Index SnapshotDocument := .on (·.playerID)

/-- The shared state: the lobby's collections, the player links UserCenter
keeps per account, and the clock. -/
structure World where
  players : Coll playerIndexes
  assets : Coll assetIndexes
  ledger : Coll ledgerIndexes
  snapshots : Coll snapshotIndexes
  links : AList fun _ : String => List String
  clock : Time

/-! ## Repositories -/

def World.createPlayer (w : World) (p : Player) : Except GoErr World := do
  p.validate
  match w.players.insertOne p with
  | some players => .ok { w with players }
  | none => .error (.wrap "create player: duplicate key" (.driver "E11000"))

def World.findDefaultByAccountID (w : World) (accountID : String) : Except GoErr Player :=
  match w.players.findOne fun p => p.accountID == accountID && p.isDefault with
  | some p => .ok p
  | none => .error errPlayerNotFound

def World.findPlayerByID (w : World) (playerID : String) : Except GoErr Player :=
  match w.players.findOne (·.id == playerID) with
  | some p => .ok p
  | none => .error errPlayerNotFound

def World.createAssets (w : World) (a : Assets) : Except GoErr World :=
  match w.assets.insertOne a with
  | some assets => .ok { w with assets }
  | none => .error (.driver "E11000")

def World.findAssetsByPlayerID (w : World) (playerID : String) : Except GoErr Assets :=
  match w.assets.findOne (·.playerID == playerID) with
  | some a => .ok a
  | none => .error errAssetNotFound

/-- `"currency." + assetType` names a field of `currency` itself. -/
def plainField (assetType : String) : Bool := !assetType.toList.contains '.'

def fitsInt64 (n : Int) : Prop := -2 ^ 63 ≤ n ∧ n < 2 ^ 63

instance (n : Int) : Decidable (fitsInt64 n) := inferInstanceAs (Decidable (_ ∧ _))

/-- `$inc` of the currency by `delta` and of the version by one. It fails when
an integer would overflow, and on a dotted path: that either meets a number in
place of a document, or leaves a document which does not decode. -/
def incAssets (assetType : String) (delta : Int64) (now : Time) (a : Assets) : Option Assets :=
  let sum := (a.balance assetType).toInt + delta.toInt
  if plainField assetType ∧ fitsInt64 sum ∧ a.assetVersion.toNat + 1 < 2 ^ 63 then
    some { a with
      currency := a.currency.insert assetType (Int64.ofInt sum)
      assetVersion := a.assetVersion + 1
      updatedAt := now }
  else none

theorem incAssets_playerID {assetType : String} {delta : Int64} {now : Time} {a b : Assets}
    (h : incAssets assetType delta now a = some b) : b.playerID = a.playerID := by
  simp only [incAssets, Option.ite_none_right_eq_some, Option.some.injEq] at h
  rw [← h.2]

theorem incAssets_keepsKeys (assetType : String) (delta : Int64) (now : Time) :
    Coll.KeepsKeys assetIndexes fun d => (incAssets assetType delta now d).getD d := by
  intro d x
  cases h : incAssets assetType delta now d with
  | none => simp [h]
  | some d' => simp [h, assetIndexes, Index.on, incAssets_playerID h]

/-- The filter of `ApplyDelta`. Go negates `delta` in wrapping arithmetic, and a
`$gte` on a missing field does not match. -/
def deltaFilter (playerID assetType : String) (delta : Int64) (a : Assets) : Bool :=
  a.playerID == playerID &&
    (if delta < 0 then (a.currency.lookup assetType).any fun b => decide (-delta ≤ b) else true)

def World.applyDelta (w : World) (playerID assetType : String) (delta : Int64) : Except GoErr (Assets × World) :=
  if delta = 0 then
    (w.findAssetsByPlayerID playerID).map (·, w)
  else
    match w.assets.findOne (deltaFilter playerID assetType delta) with
    | none => .error errInsufficientCurrency
    | some a =>
      match incAssets assetType delta w.clock a with
      | none => .error (.wrap "apply asset delta" (.driver "$inc"))
      | some b =>
        .ok (b, { w with
          assets := w.assets.updateOne (deltaFilter playerID assetType delta)
            (fun d => (incAssets assetType delta w.clock d).getD d) (incAssets_keepsKeys assetType delta w.clock) })

def World.createLedger (w : World) (s : Settlement) : Except GoErr World := do
  s.validate
  match w.ledger.insertOne s with
  | some ledger => .ok { w with ledger }
  | none => .error (.wrap "create settlement" errSettlementApplied)

def World.findBySettlementID (w : World) (id : String) : Except GoErr Settlement :=
  match w.ledger.findOne (·.id == id) with
  | some s => .ok s
  | none => .error errSettlementNotFound

def World.saveSnapshot (w : World) (s : Snapshot) : World :=
  { w with snapshots := w.snapshots.upsert (snapshotDocumentFromDomain s) }

def World.findSnapshotByPlayerID (w : World) (playerID : String) : Except GoErr Snapshot :=
  match w.snapshots.findOne (·.playerID == playerID) with
  | some d => .ok (snapshotDomainFromDocument d)
  | none => .error errPlayerNotFound

def World.linkPlayer (w : World) (accountID playerID : String) : Except GoErr World :=
  match w.links.lookup accountID with
  | some ids => .ok { w with links := w.links.insert accountID (if playerID ∈ ids then ids else ids ++ [playerID]) }
  | none => .error (.new "account not found")

/-! ## Transactions -/

def World.createTx (w : World) (candidate : Player) (initialAssets : Assets) : Except GoErr World := do
  let w ← w.createPlayer candidate
  let w ← w.createAssets initialAssets
  return w.saveSnapshot
    { player := candidate, assets := initialAssets, schemaVersion := 1, createdAt := candidate.createdAt }

def World.settleTx (w : World) (s : Settlement) : Except GoErr World := do
  let w ← w.createLedger s
  let (assets, w) ← w.applyDelta s.playerID s.assetType s.delta
  let player ← w.findPlayerByID s.playerID
  return w.saveSnapshot { player, assets, schemaVersion := 1, createdAt := w.clock }

/-! ## Commands -/

inductive Cmd
  | now
  | newUUID
  | findDefaultByAccountID (accountID : String)
  | createTx (candidate : Player) (initialAssets : Assets)
  | linkPlayer (accountID playerID : String)
  | findBySettlementID (id : String)
  | settleTx (s : Settlement)
  | findAssetsByPlayerID (playerID : String)
  | findPlayerByID (playerID : String)
  | findSnapshotByPlayerID (playerID : String)
  | saveSnapshot (s : Snapshot)

@[reducible] def Ans : Cmd → Type
  | .now => Time
  | .newUUID => Except GoErr String
  | .findDefaultByAccountID _ => Except GoErr Player
  | .createTx _ _ => Except GoErr Unit
  | .linkPlayer _ _ => Except GoErr Unit
  | .findBySettlementID _ => Except GoErr Settlement
  | .settleTx _ => Except GoErr Unit
  | .findAssetsByPlayerID _ => Except GoErr Assets
  | .findPlayerByID _ => Except GoErr Player
  | .findSnapshotByPlayerID _ => Except GoErr Snapshot
  | .saveSnapshot _ => Except GoErr Unit

/-- What the environment contributes to one step: the time that passes before
it, the UUID it would draw, and the failure it meets, if any. -/
structure Env where
  delay : Nat := 0
  uuid : String := ""
  fail : Option String := none
  deriving Inhabited

def commit (w : World) : Except GoErr World → Except GoErr Unit × World
  | .ok w' => (.ok (), w')
  | .error e => (.error e, w)

def World.answer (w : World) : (c : Cmd) → Env → Ans c × World
  | .now, _ => (w.clock, w)
  | .newUUID, e => (.ok e.uuid, w)
  | .findDefaultByAccountID accountID, _ => (w.findDefaultByAccountID accountID, w)
  | .createTx candidate initialAssets, _ => commit w (w.createTx candidate initialAssets)
  | .linkPlayer accountID playerID, _ => commit w (w.linkPlayer accountID playerID)
  | .findBySettlementID id, _ => (w.findBySettlementID id, w)
  | .settleTx s, _ => commit w (w.settleTx s)
  | .findAssetsByPlayerID playerID, _ => (w.findAssetsByPlayerID playerID, w)
  | .findPlayerByID playerID, _ => (w.findPlayerByID playerID, w)
  | .findSnapshotByPlayerID playerID, _ => (w.findSnapshotByPlayerID playerID, w)
  | .saveSnapshot s, _ => (.ok (), w.saveSnapshot s)

def failed (text : String) : (c : Cmd) → Option (Ans c)
  | .now => none
  | .newUUID => some (.error (.driver text))
  | .findDefaultByAccountID _ => some (.error (.driver text))
  | .createTx _ _ => some (.error (.driver text))
  | .linkPlayer _ _ => some (.error (.driver text))
  | .findBySettlementID _ => some (.error (.driver text))
  | .settleTx _ => some (.error (.driver text))
  | .findAssetsByPlayerID _ => some (.error (.driver text))
  | .findPlayerByID _ => some (.error (.driver text))
  | .findSnapshotByPlayerID _ => some (.error (.driver text))
  | .saveSnapshot _ => some (.error (.driver text))

def exec (_ : Nat) (e : Env) (w : World) (c : Cmd) : Option (Ans c × World) :=
  let w := { w with clock := w.clock + e.delay }
  match e.fail with
  | none => some (w.answer c e)
  | some text => (failed text c).map (·, w)

/-! ## Messages -/

structure LobbyStateSnapshot where
  playerID : String
  accountID : String
  nickname : String
  region : String
  profileVersion : UInt64
  assetVersion : UInt64
  currency : Currency
  deriving DecidableEq

def stateSchemaVersion : UInt32 := 1

def marshalStateSnapshot (s : Snapshot) : LobbyStateSnapshot where
  playerID := s.player.id
  accountID := s.player.accountID
  nickname := s.player.nickname
  region := s.player.region
  profileVersion := s.player.profileVersion
  assetVersion := s.assets.assetVersion
  currency := s.assets.currency

inductive RestoreMode
  | full
  | noop
  deriving DecidableEq

inductive StatePayloadType
  | unspecified
  | lobbySnapshot
  deriving DecidableEq

def lobbyStatePayloadType : RestoreMode → StatePayloadType
  | .noop => .unspecified
  | .full => .lobbySnapshot

structure RestorePlayerStateResponse where
  playerID : String
  stateVersion : UInt64
  snapshot : Option LobbyStateSnapshot
  available : Bool
  mode : RestoreMode
  baseStateVersion : UInt64
  payloadType : StatePayloadType
  schemaVersion : UInt32
  deriving DecidableEq

/-! ## Handlers -/

inductive Reply
  | ensurePlayer (accountID playerID : String) (created : Bool)
  | settlement (settlementID playerID assetType : String) (balance : Int64) (assetVersion : UInt64) (replayed : Bool)
  | restore (response : RestorePlayerStateResponse)
  deriving DecidableEq

abbrev Handler := Prog Ans (Except GoErr Reply)

def perform (c : Cmd) : Prog Ans (Ans c) := Prog.perform c

def linkAndReply (accountID playerID : String) (created : Bool) : Handler := do
  match ← perform (.linkPlayer accountID playerID) with
  | .error err => return .error (.wrap "link player" err)
  | .ok () => return .ok (.ensurePlayer accountID playerID created)

def ensurePlayer (payload : Option String) : Handler :=
  match payload.map trimSpace with
  | none | some "" => return .error (.new "account_id is required")
  | some accountID => do
    match ← perform (.findDefaultByAccountID accountID) with
    | .ok player => linkAndReply accountID player.id false
    | .error err =>
      if !err.is errPlayerNotFound then return .error (.wrap "ensure player" err)
      match ← perform .newUUID with
      | .error idErr => return .error idErr
      | .ok playerID =>
        let now : Time ← perform .now
        let candidate : Player :=
          { id := playerID, accountID, nickname := "Player", region := "global", isDefault := true,
            profileVersion := 1, createdAt := now, updatedAt := now }
        let initialAssets : Assets :=
          { playerID, currency := ((∅ : Currency).insert "diamond" 0).insert "gold" 0, assetVersion := 1,
            updatedAt := now }
        match ← perform (.createTx candidate initialAssets) with
        | .ok () => linkAndReply accountID candidate.id true
        | .error _ =>
          match ← perform (.findDefaultByAccountID accountID) with
          | .ok player => linkAndReply accountID player.id false
          | .error err => return .error (.wrap "ensure player" err)

structure SettlementRequest where
  settlementID : String
  playerID : String
  assetType : String
  delta : Int64
  reason : String
  source : String
  deriving DecidableEq

def SettlementRequest.valid (r : SettlementRequest) : Bool :=
  r.settlementID ≠ "" ∧ r.playerID ≠ "" ∧ r.assetType ≠ "" ∧ r.delta ≠ 0 ∧ r.reason ≠ "" ∧ r.source ≠ ""

def SettlementRequest.toSettlement (r : SettlementRequest) (now : Time) : Settlement :=
  { id := r.settlementID, playerID := r.playerID, assetType := r.assetType, delta := r.delta, reason := r.reason,
    source := r.source, createdAt := now }

def Settlement.differs (existing s : Settlement) : Bool :=
  existing.playerID ≠ s.playerID ∨ existing.assetType ≠ s.assetType ∨ existing.delta ≠ s.delta ∨
    existing.reason ≠ s.reason ∨ existing.source ≠ s.source

def settlementResult (s : Settlement) (replayed : Bool) : Handler := do
  match ← perform (.findAssetsByPlayerID s.playerID) with
  | .error err => return .error err
  | .ok assets =>
    return .ok (.settlement s.id s.playerID s.assetType (assets.balance s.assetType) assets.assetVersion replayed)

def replaySettlement (settlementID : String) : Handler := do
  match ← perform (.findBySettlementID settlementID) with
  | .error err => return .error (.wrap "load replayed settlement" err)
  | .ok s => settlementResult s true

def settlement (payload : Option SettlementRequest) : Handler :=
  match payload with
  | none => return .error errInvalidSettlement
  | some request => do
    if !request.valid then return .error errInvalidSettlement
    let now : Time ← perform .now
    let s := request.toSettlement now
    match ← perform (.findBySettlementID s.id) with
    | .ok existing =>
      if existing.differs s then return .error errSettlementConflict
      settlementResult existing true
    | .error err =>
      if !err.is errSettlementNotFound then return .error err
      match ← perform (.settleTx s) with
      | .ok () => settlementResult s false
      | .error err => if err.is errSettlementApplied then replaySettlement s.id else return .error err

structure RestoreRequest where
  playerID : String
  lastStateVersion : UInt64
  deriving DecidableEq

def restoreResponse (request : RestoreRequest) (s : Snapshot) : RestorePlayerStateResponse :=
  let noop := request.lastStateVersion = s.stateVersion
  let mode : RestoreMode := if noop then .noop else .full
  { playerID := request.playerID
    stateVersion := s.stateVersion
    snapshot := if noop then none else some (marshalStateSnapshot s)
    available := true
    mode
    baseStateVersion := if noop then request.lastStateVersion else 0
    payloadType := lobbyStatePayloadType mode
    schemaVersion := stateSchemaVersion }

/-- A missing snapshot is built from the player and its assets. It is stored
outside any transaction, and the error of `Save` is dropped. -/
def rebuild (request : RestoreRequest) (player : Player) (assets : Assets) : Handler := do
  let now : Time ← perform .now
  let s : Snapshot := { player, assets, schemaVersion := 1, createdAt := now }
  let _ ← perform (.saveSnapshot s)
  return .ok (.restore (restoreResponse request s))

def restore (payload : Option RestoreRequest) : Handler :=
  match payload with
  | none => return .error (.new "player_id is required")
  | some request => do
    if request.playerID = "" then return .error (.new "player_id is required")
    match ← perform (.findSnapshotByPlayerID request.playerID) with
    | .ok s => return .ok (.restore (restoreResponse request s))
    | .error err =>
      if !err.is errPlayerNotFound then return .error err
      match ← perform (.findPlayerByID request.playerID) with
      | .error playerErr => return .error playerErr
      | .ok player =>
        match ← perform (.findAssetsByPlayerID request.playerID) with
        | .error assetErr => return .error assetErr
        | .ok assets => rebuild request player assets

/-! ## Runs -/

inductive Request
  | ensurePlayer (payload : Option String)
  | settlement (payload : Option SettlementRequest)
  deriving DecidableEq

def Request.handler : Request → Handler
  | .ensurePlayer p => Lobby.ensurePlayer p
  | .settlement p => Lobby.settlement p

def World.init (links : AList fun _ : String => List String) (clock : Time) : World :=
  ⟨.empty, .empty, .empty, .empty, links, clock⟩

abbrev State := Pool Ans World (Except GoErr Reply)

def State.init (w : World) (requests : List Request) : State := Pool.start w (requests.map Request.handler)

end GameServer.Lobby
