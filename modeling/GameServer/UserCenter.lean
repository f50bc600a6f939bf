import GameServer.Prog
import GameServer.Collection
import GameServer.Go
import Mathlib.Data.List.AList

/-!
# The user center: accounts, identities, tokens and their store

The four MongoDB collections of the user center, its commands on them, and the
cores of `DomainAuthComponent`: guest and password login, refresh and revoke.
A function passed to `UnitOfWork.Execute` is one command, as is every other
call of the driver. A command can fail, with or without having taken effect.
UUIDs and raw tokens are drawn by the environment and never drawn twice.
-/

namespace GameServer.UserCenter

/-! ## Domain -/

def errIdentityNotFound : GoErr := .new "identity not found"
def errInvalidAccount : GoErr := .new "invalid account"
def errInvalidIdentity : GoErr := .new "invalid identity"
def errInvalidToken : GoErr := .new "invalid refresh token"
def errInvalidIdempotency : GoErr := .new "invalid idempotency record"
def errIdempotencyConflict : GoErr := .new "idempotency key conflict"
def errIdempotencyLeaseLost : GoErr := .new "idempotency lease lost"
def errIdempotencyNotFound : GoErr := .new "idempotency record not found"

structure Account where
  id : String
  createdAt : Time
  updatedAt : Time
  deriving DecidableEq

/-- An account is created without identities and players. -/
def Account.validate (a : Account) : Except GoErr Unit :=
  if a.id = "" then .error errInvalidAccount else .ok ()

inductive AuthProvider
  | guest
  | steam
  | apple
  | google
  | wechat
  | password
  deriving DecidableEq, Repr

structure Identity where
  id : String
  accountID : String
  provider : AuthProvider
  subject : String
  passwordHash : String
  linkedAt : Time
  deriving DecidableEq

def Identity.validate (i : Identity) : Except GoErr Unit :=
  if i.subject = "" then .error errInvalidIdentity
  else if i.provider = .password ∧ i.passwordHash = "" then .error errInvalidIdentity
  else .ok ()

structure RefreshToken where
  id : String
  accountID : String
  tokenHash : String
  installID : String
  createdAt : Time
  expiresAt : Time
  revokedAt : Option Time := none
  deriving DecidableEq

def RefreshToken.validate (t : RefreshToken) (now : Time) : Except GoErr Unit :=
  if t.accountID = "" ∨ t.tokenHash = "" ∨ t.installID = "" ∨ t.expiresAt = 0 then .error errInvalidToken
  else if ¬ now < t.expiresAt then .error errInvalidToken
  else if t.revokedAt ≠ none then .error errInvalidToken
  else .ok ()

def RefreshToken.isUsable (t : RefreshToken) (now : Time) (installID : String) : Bool :=
  installID ≠ "" && t.installID == installID && (t.validate now).isOk

inductive Operation
  | guestAuthenticate
  | passwordAuthenticate
  | refreshAuthenticate
  | revokeRefreshToken
  | clientLoginAuthenticate
  | clientRefreshAuthenticate
  deriving DecidableEq, Repr

structure AuthenticationGrant where
  accountID : String
  refreshToken : String
  refreshTokenExpireAtUnix : Nat
  deriving DecidableEq, Repr

inductive Message
  | guest (grant : AuthenticationGrant) (created : Bool)
  | password (grant : AuthenticationGrant)
  | refresh (grant : AuthenticationGrant)
  | revoke
  | clientLogin (grant : Option AuthenticationGrant)
  | clientRefresh (grant : Option AuthenticationGrant)
  deriving DecidableEq, Repr

structure MessageResult where
  messageID : UInt32
  message : Message
  deriving DecidableEq, Repr

def guestAuthenticateResponse : UInt32 := 1101
def refreshAuthenticateResponse : UInt32 := 1102
def revokeRefreshTokenResponse : UInt32 := 1103
def passwordAuthenticateResponse : UInt32 := 1104
def clientLoginAuthenticateResponse : UInt32 := 1106
def clientRefreshAuthenticateResponse : UInt32 := 1107

inductive IdempotencyState
  | pending
  | completed
  deriving DecidableEq, Repr

/-- The stored response is the message it encodes, `none` for no bytes at all.
`leaseUntil` is `0` once it is unset. -/
structure IdempotencyRecord where
  key : String
  operation : Operation
  requestHash : String
  response : Option Message := none
  state : IdempotencyState
  reservationID : String
  leaseUntil : Time
  createdAt : Time
  expiresAt : Time
  deriving DecidableEq

def IdempotencyRecord.validate (r : IdempotencyRecord) (now : Time) : Except GoErr Unit :=
  if r.key = "" ∨ r.requestHash = "" ∨ r.expiresAt = 0 then .error errInvalidIdempotency
  else if ¬ now < r.expiresAt then .error errInvalidIdempotency
  else .ok ()

def IdempotencyRecord.isCompleted (r : IdempotencyRecord) : Bool := r.state == .completed

/-! ## Collections -/

def accountIndexes : Index Account := .on (·.id)
def identityIndexes : Index Identity := (Index.on (·.id)).and (.on fun i => (i.provider, i.subject))
def refreshTokenIndexes : Index RefreshToken := (Index.on (·.id)).and (.on (·.tokenHash))
def idempotencyIndexes : Index IdempotencyRecord := .on (·.key)

structure LockEntry where
  locked : Bool
  refs : Int
  deriving DecidableEq

/-- The lock tables of all processes. An entry is named by its position in
`entries`, which is never reused, as its address would be. -/
structure LockTable where
  table : AList fun _ : Nat × String => Nat
  entries : List LockEntry

structure World where
  accounts : Coll accountIndexes
  identities : Coll identityIndexes
  tokens : Coll refreshTokenIndexes
  records : Coll idempotencyIndexes
  locks : LockTable
  drawn : List (Nat × String)
  clock : Time

def World.init (clock : Time) : World := ⟨.empty, .empty, .empty, .empty, ⟨∅, []⟩, [], clock⟩

/-! ## Repositories -/

def duplicateKey : GoErr := .driver "E11000 duplicate key error"

def World.createAccount (w : World) (a : Account) : Except GoErr World := do
  a.validate
  match w.accounts.insertOne a with
  | some accounts => .ok { w with accounts }
  | none => .error (.wrap "create account: duplicate key" duplicateKey)

def identityDocumentFromDomain (i : Identity) : Except GoErr Identity := do
  i.validate
  if i.accountID = "" then .error errInvalidIdentity else .ok i

def World.createIdentity (w : World) (i : Identity) : Except GoErr World := do
  let document ← identityDocumentFromDomain i
  match w.identities.insertOne document with
  | some identities => .ok { w with identities }
  | none => .error (.wrap "create identity: duplicate key" duplicateKey)

def World.findIdentity (w : World) (provider : AuthProvider) (subject : String) : Except GoErr Identity :=
  if subject = "" then .error errInvalidIdentity
  else
    match w.identities.findOne fun i => i.provider == provider && i.subject == subject with
    | some i => .ok i
    | none => .error errIdentityNotFound

def refreshTokenDocumentFromDomain (t : RefreshToken) (now : Time) : Except GoErr RefreshToken :=
  if t.accountID = "" ∨ t.tokenHash = "" ∨ t.installID = "" ∨ t.expiresAt = 0 then .error errInvalidToken
  else if t.revokedAt = none ∧ ¬ now < t.expiresAt then .error errInvalidToken
  else .ok t

def World.insertToken (w : World) (document : RefreshToken) : Except GoErr World :=
  match w.tokens.insertOne document with
  | some tokens => .ok { w with tokens }
  | none => .error (.wrap "create refresh token: duplicate key" duplicateKey)

def World.findValid (w : World) (tokenHash : String) (now : Time) : Except GoErr RefreshToken :=
  if tokenHash = "" then .error errInvalidToken
  else
    match w.tokens.findOne fun t => t.tokenHash == tokenHash && t.revokedAt == none && decide (now < t.expiresAt) with
    | some t => .ok t
    | none => .error errInvalidToken

def RefreshToken.revokedFrom (now : Time) (t : RefreshToken) : RefreshToken := { t with revokedAt := some now }

theorem revokedFrom_keepsKeys (now : Time) : Coll.KeepsKeys refreshTokenIndexes (RefreshToken.revokedFrom now) :=
  fun _ _ => rfl

def revokeFilter (tokenID : String) (t : RefreshToken) : Bool := t.id == tokenID && t.revokedAt == none

def World.revoke (w : World) (tokenID : String) (now : Time) : Except GoErr World :=
  match w.tokens.findOne (revokeFilter tokenID) with
  | some _ =>
    .ok { w with tokens := w.tokens.updateOne (revokeFilter tokenID) (.revokedFrom now) (revokedFrom_keepsKeys now) }
  | none => .error errInvalidToken

def rotateFilter (tokenID : String) (now : Time) (t : RefreshToken) : Bool :=
  t.id == tokenID && t.revokedAt == none && decide (now < t.expiresAt)

def World.rotateTx (w : World) (tokenID : String) (now : Time) (replacement : RefreshToken) : Except GoErr World :=
  match w.tokens.findOne (rotateFilter tokenID now) with
  | none => .error errInvalidToken
  | some _ =>
    match (w.tokens.updateOne (rotateFilter tokenID now) (.revokedFrom now) (revokedFrom_keepsKeys now)).insertOne
      replacement with
    | some tokens => .ok { w with tokens }
    | none => .error (.wrap "rotate refresh token insert" duplicateKey)

def World.createAccountTx (w : World) (account : Account) (identity : Identity) (token : RefreshToken) :
    Except GoErr World := do
  let w ← w.createAccount account
  let w ← w.createIdentity identity
  let document ← refreshTokenDocumentFromDomain token w.clock
  w.insertToken document

def World.findRecord (w : World) (key : String) (now : Time) : Except GoErr IdempotencyRecord :=
  if key = "" then .error errInvalidIdempotency
  else
    match w.records.findOne fun r => r.key == key && decide (now < r.expiresAt) with
    | some r => .ok r
    | none => .error errIdempotencyNotFound

def staleFilter (key : String) (now : Time) (r : IdempotencyRecord) : Bool :=
  r.key == key && (decide (r.expiresAt ≤ now) || r.state == .pending && decide (r.leaseUntil ≤ now))

def claimFilter (key reservationID : String) (now : Time) (r : IdempotencyRecord) : Bool :=
  r.key == key && r.state == .pending && r.reservationID == reservationID && decide (r.leaseUntil ≤ now)

def ownedFilter (key reservationID : String) (now : Time) (r : IdempotencyRecord) : Bool :=
  r.key == key && r.state == .pending && r.reservationID == reservationID && decide (now < r.expiresAt)

def releaseFilter (key reservationID : String) (r : IdempotencyRecord) : Bool :=
  r.key == key && r.state == .pending && r.reservationID == reservationID

def recoverFilter (now : Time) (r : IdempotencyRecord) : Bool :=
  r.state == .pending && (decide (r.leaseUntil ≤ now) || decide (r.expiresAt ≤ now))

def IdempotencyRecord.claimedBy (reservationID : String) (leaseUntil : Time) (r : IdempotencyRecord) :
    IdempotencyRecord :=
  { r with reservationID, leaseUntil }

def IdempotencyRecord.completedWith (response : Message) (r : IdempotencyRecord) : IdempotencyRecord :=
  { r with state := .completed, response := some response, leaseUntil := 0 }

def IdempotencyRecord.renewedUntil (leaseUntil : Time) (r : IdempotencyRecord) : IdempotencyRecord :=
  { r with leaseUntil }

theorem claimedBy_keepsKeys (reservationID : String) (leaseUntil : Time) :
    Coll.KeepsKeys idempotencyIndexes (IdempotencyRecord.claimedBy reservationID leaseUntil) := fun _ _ => rfl

theorem completedWith_keepsKeys (response : Message) :
    Coll.KeepsKeys idempotencyIndexes (IdempotencyRecord.completedWith response) := fun _ _ => rfl

theorem renewedUntil_keepsKeys (leaseUntil : Time) :
    Coll.KeepsKeys idempotencyIndexes (IdempotencyRecord.renewedUntil leaseUntil) := fun _ _ => rfl

def World.claim (w : World) (key reservationID : String) (now : Time) (newID : String) (leaseUntil : Time) :
    Option IdempotencyRecord × World :=
  match w.records.findOne (claimFilter key reservationID now) with
  | none => (none, w)
  | some r =>
    (some (r.claimedBy newID leaseUntil), { w with
      records := w.records.updateOne (claimFilter key reservationID now) (.claimedBy newID leaseUntil)
        (claimedBy_keepsKeys newID leaseUntil) })

def World.complete (w : World) (key reservationID : String) (response : Message) (now : Time) : Except GoErr World :=
  match w.records.findOne (ownedFilter key reservationID now) with
  | none => .error errIdempotencyConflict
  | some _ =>
    .ok { w with
      records := w.records.updateOne (ownedFilter key reservationID now) (.completedWith response)
        (completedWith_keepsKeys response) }

def World.renew (w : World) (key reservationID : String) (leaseUntil now : Time) : Except GoErr World :=
  match w.records.findOne (ownedFilter key reservationID now) with
  | none => .error errIdempotencyLeaseLost
  | some _ =>
    .ok { w with
      records := w.records.updateOne (ownedFilter key reservationID now) (.renewedUntil leaseUntil)
        (renewedUntil_keepsKeys leaseUntil) }

/-! ## Locks -/

def LockTable.modify (t : LockTable) (entry : Nat) (f : LockEntry → LockEntry) : LockTable :=
  { t with entries := t.entries.modify entry f }

def LockTable.acquire (t : LockTable) (process : Nat) (key : String) : Nat × LockTable :=
  match t.table.lookup (process, key) with
  | some entry => (entry, t.modify entry fun l => { l with refs := l.refs + 1 })
  | none =>
    (t.entries.length, ⟨t.table.insert (process, key) t.entries.length, t.entries ++ [⟨false, 1⟩]⟩)

def LockTable.lock (t : LockTable) (entry : Nat) : Option LockTable :=
  match t.entries[entry]? with
  | some ⟨false, _⟩ => some (t.modify entry fun l => { l with locked := true })
  | _ => none

def LockTable.unlock (t : LockTable) (entry : Nat) : LockTable := t.modify entry fun l => { l with locked := false }

def LockTable.release (t : LockTable) (process : Nat) (key : String) (entry : Nat) : LockTable :=
  let t := t.modify entry fun l => { l with refs := l.refs - 1 }
  if (t.entries[entry]?.any fun l => l.refs == 0) && t.table.lookup (process, key) == some entry then
    { t with table := t.table.erase (process, key) }
  else t

/-! ## Requests -/

structure GuestAuthenticateRequest where
  installID : String
  clientPlatform : String := ""
  clientVersion : String := ""
  idempotencyKey : String := ""
  deriving DecidableEq

structure PasswordAuthenticateRequest where
  username : String
  password : String
  installID : String
  idempotencyKey : String := ""
  deriving DecidableEq

structure RefreshAuthenticateRequest where
  refreshToken : String
  installID : String
  idempotencyKey : String := ""
  deriving DecidableEq

structure RevokeRefreshTokenRequest where
  accountID : String
  refreshToken : String
  idempotencyKey : String := ""
  deriving DecidableEq

/-- The client's `AuthProvider`; a number it does not define is handled as
`unspecified` is. -/
inductive ClientProvider
  | unspecified
  | provider (p : AuthProvider)
  deriving DecidableEq, Repr

structure LoginRequest where
  provider : ClientProvider
  credential : String := ""
  installID : String
  username : String := ""
  password : String := ""
  idempotencyKey : String := ""
  deriving DecidableEq

structure RefreshLoginRequest where
  refreshToken : String
  installID : String
  idempotencyKey : String := ""
  deriving DecidableEq

inductive Request
  | guest (r : GuestAuthenticateRequest)
  | password (r : PasswordAuthenticateRequest)
  | refresh (r : RefreshAuthenticateRequest)
  | revoke (r : RevokeRefreshTokenRequest)
  | clientLogin (r : LoginRequest)
  | clientRefresh (r : RefreshLoginRequest)
  deriving DecidableEq

def clearIdempotencyKey : Request → Request
  | .guest r => .guest { r with idempotencyKey := "" }
  | .password r => .password { r with idempotencyKey := "" }
  | .refresh r => .refresh { r with idempotencyKey := "" }
  | .revoke r => .revoke { r with idempotencyKey := "" }
  | .clientLogin r => .clientLogin { r with idempotencyKey := "" }
  | .clientRefresh r => .clientRefresh { r with idempotencyKey := "" }

/-- The settings of the component, and the functions it takes from libraries:
the digest of a token, the digest of an encoded request, and the comparison of
a password with its hash. A duration that is not positive is `0`. -/
structure DomainAuthComponent where
  refreshTokenTTL : Nat
  idempotencyTTL : Nat := 24 * 3600 * 10 ^ 9
  idempotencyLease : Nat := 30 * 10 ^ 9
  idempotencyRenewInterval : Nat := 10 * 10 ^ 9
  authHashToken : String → String
  digest : Request → String
  compareHashAndPassword : String → String → Bool

/-! ## Commands -/

inductive Inserted
  | ok
  | duplicate
  | failed (err : GoErr)

inductive Cmd
  | now
  | newUUID
  | readRandom
  | generateFromPassword (password : String)
  | findIdentity (provider : AuthProvider) (subject : String)
  | createAccountTx (account : Account) (identity : Identity) (token : RefreshToken)
  | insertToken (document : RefreshToken)
  | findValid (tokenHash : String) (now : Time)
  | revoke (tokenID : String) (now : Time)
  | rotateTx (tokenID : String) (now : Time) (replacement : RefreshToken)
  | findRecord (key : String) (now : Time)
  | insertRecord (document : IdempotencyRecord)
  | deleteStale (key : String) (now : Time)
  | claim (key reservationID : String) (now : Time) (newID : String) (leaseUntil : Time)
  | complete (key reservationID : String) (response : Message) (now : Time)
  | release (key reservationID : String)
  | renew (key reservationID : String) (leaseUntil now : Time)
  | recoverExpired (now : Time)
  | ticks
  | acquireLock (process : Nat) (key : String)
  | lock (entry : Nat)
  | unlock (entry : Nat)
  | releaseLock (process : Nat) (key : String) (entry : Nat)
  | expireToken (tokenID : String)
  | expireRecord (key : String)

@[reducible] def Ans : Cmd → Type
  | .now => Time
  | .newUUID | .readRandom | .generateFromPassword _ => Except GoErr String
  | .findIdentity _ _ => Except GoErr Identity
  | .findValid _ _ => Except GoErr RefreshToken
  | .findRecord _ _ => Except GoErr IdempotencyRecord
  | .insertRecord _ => Inserted
  | .deleteStale _ _ => Except GoErr Bool
  | .claim _ _ _ _ _ => Except GoErr (Option IdempotencyRecord)
  | .createAccountTx _ _ _ | .insertToken _ | .revoke _ _ | .rotateTx _ _ _ | .complete _ _ _ _ | .release _ _
  | .renew _ _ _ _ | .recoverExpired _ => Except GoErr Unit
  | .ticks => Nat
  | .acquireLock _ _ => Nat
  | .lock _ | .unlock _ | .releaseLock _ _ _ | .expireToken _ | .expireRecord _ => Unit

/-- What the environment contributes to one step: the time that passes before
it, the UUID, raw token or salted hash it would draw, how often the renewal
ticker has fired, and the failure it meets, if any, after or before the command
has taken effect. -/
structure Env where
  delay : Nat := 0
  id : String := ""
  ticks : Nat := 0
  fail : Option String := none
  applied : Bool := false
  deriving Inhabited

def commit (w : World) : Except GoErr World → Except GoErr Unit × World
  | .ok w' => (.ok (), w')
  | .error err => (.error err, w)

def World.draw (w : World) (i : Nat) (id : String) : Option (Except GoErr String × World) :=
  if id ≠ "" ∧ ∀ x ∈ w.drawn, x.2 ≠ id then some (.ok id, { w with drawn := (i, id) :: w.drawn }) else none

def World.answer (c : DomainAuthComponent) (i : Nat) (w : World) : (cmd : Cmd) → Env → Option (Ans cmd × World)
  | .now, _ => some (w.clock, w)
  | .newUUID, e => w.draw i e.id
  | .readRandom, e => w.draw i e.id
  | .generateFromPassword password, e =>
    if 72 < password.utf8ByteSize then some (.error (.new "bcrypt: password length exceeds 72 bytes"), w)
    else if e.id ≠ "" ∧ c.compareHashAndPassword e.id password then some (.ok e.id, w)
    else none
  | .findIdentity provider subject, _ => some (w.findIdentity provider subject, w)
  | .createAccountTx account identity token, _ => some (commit w (w.createAccountTx account identity token))
  | .insertToken document, _ => some (commit w (w.insertToken document))
  | .findValid tokenHash now, _ => some (w.findValid tokenHash now, w)
  | .revoke tokenID now, _ => some (commit w (w.revoke tokenID now))
  | .rotateTx tokenID now replacement, _ => some (commit w (w.rotateTx tokenID now replacement))
  | .findRecord key now, _ => some (w.findRecord key now, w)
  | .insertRecord document, _ =>
    match w.records.insertOne document with
    | some records => some (.ok, { w with records })
    | none => some (.duplicate, w)
  | .deleteStale key now, _ =>
    some (.ok (w.records.findOne (staleFilter key now)).isSome,
      { w with records := w.records.deleteOne (staleFilter key now) })
  | .claim key reservationID now newID leaseUntil, _ =>
    let (claimed, w) := w.claim key reservationID now newID leaseUntil
    some (.ok claimed, w)
  | .complete key reservationID response now, _ => some (commit w (w.complete key reservationID response now))
  | .release key reservationID, _ =>
    some (.ok (), { w with records := w.records.deleteOne (releaseFilter key reservationID) })
  | .renew key reservationID leaseUntil now, _ => some (commit w (w.renew key reservationID leaseUntil now))
  | .recoverExpired now, _ => some (.ok (), { w with records := w.records.deleteMany (recoverFilter now) })
  | .ticks, e => some (e.ticks, w)
  | .acquireLock process key, _ =>
    let (entry, locks) := w.locks.acquire process key
    some (entry, { w with locks })
  | .lock entry, _ => (w.locks.lock entry).map fun locks => ((), { w with locks })
  | .unlock entry, _ => some ((), { w with locks := w.locks.unlock entry })
  | .releaseLock process key entry, _ => some ((), { w with locks := w.locks.release process key entry })
  | .expireToken tokenID, _ =>
    some ((), { w with tokens := w.tokens.deleteOne fun t => t.id == tokenID && decide (t.expiresAt ≤ w.clock) })
  | .expireRecord key, _ =>
    some ((), { w with records := w.records.deleteOne fun r => r.key == key && decide (r.expiresAt ≤ w.clock) })

def failed (text : String) : (cmd : Cmd) → Option (Ans cmd)
  | .newUUID | .readRandom | .generateFromPassword _ => some (.error (.driver text))
  | .findIdentity _ _ => some (.error (.wrap "find identity" (.driver text)))
  | .createAccountTx _ _ _ => some (.error (.driver text))
  | .insertToken _ => some (.error (.wrap "create refresh token" (.driver text)))
  | .findValid _ _ => some (.error (.wrap "find refresh token" (.driver text)))
  | .revoke _ _ => some (.error (.wrap "revoke refresh token" (.driver text)))
  | .rotateTx _ _ _ => some (.error (.driver text))
  | .findRecord _ _ => some (.error (.wrap "find idempotency record" (.driver text)))
  | .insertRecord _ => some (.failed (.driver text))
  | .deleteStale _ _ => some (.error (.driver text))
  | .claim _ _ _ _ _ => some (.error (.driver text))
  | .complete _ _ _ _ => some (.error (.wrap "complete idempotency record" (.driver text)))
  | .release _ _ => some (.error (.wrap "release idempotency record" (.driver text)))
  | .renew _ _ _ _ => some (.error (.wrap "renew idempotency lease" (.driver text)))
  | .recoverExpired _ => some (.error (.wrap "recover expired idempotency records" (.driver text)))
  | .now | .ticks | .acquireLock _ _ | .lock _ | .unlock _ | .releaseLock _ _ _ | .expireToken _ | .expireRecord _ => none

def exec (c : DomainAuthComponent) (i : Nat) (e : Env) (w : World) (cmd : Cmd) : Option (Ans cmd × World) :=
  let w := { w with clock := w.clock + e.delay }
  match e.fail with
  | none => w.answer c i cmd e
  | some text =>
    (failed text cmd).bind fun r => if e.applied then (w.answer c i cmd e).map fun x => (r, x.2) else some (r, w)

/-! ## The cores of the handlers -/

abbrev Handler := Prog Ans (Except GoErr MessageResult)

def perform (cmd : Cmd) : Prog Ans (Ans cmd) := Prog.perform cmd

section
variable (c : DomainAuthComponent)

def newToken (accountID installID : String) : Prog Ans (Except GoErr (RefreshToken × String)) := do
  if accountID = "" ∨ installID = "" ∨ c.refreshTokenTTL = 0 then return .error errInvalidToken
  match ← perform .newUUID with
  | .error err => return .error err
  | .ok tokenID =>
    match ← perform .readRandom with
    | .error err => return .error err
    | .ok rawToken =>
      let now : Time ← perform .now
      return .ok ({ id := tokenID, accountID, tokenHash := c.authHashToken rawToken, installID := trimSpace installID,
                    createdAt := now, expiresAt := now + c.refreshTokenTTL }, rawToken)

def createToken (token : RefreshToken) : Prog Ans (Except GoErr Unit) := do
  let now : Time ← perform .now
  match refreshTokenDocumentFromDomain token now with
  | .error err => return .error err
  | .ok document => perform (.insertToken document)

def rotate (tokenID : String) (now : Time) (replacement : RefreshToken) : Prog Ans (Except GoErr Unit) := do
  if tokenID = "" then return .error errInvalidToken
  let today : Time ← perform .now
  match refreshTokenDocumentFromDomain replacement today with
  | .error err => return .error err
  | .ok document => perform (.rotateTx tokenID now document)

def issueToken (accountID installID : String) : Prog Ans (Except GoErr (RefreshToken × String)) := do
  match ← newToken c accountID installID with
  | .error err => return .error err
  | .ok (token, rawToken) =>
    match ← createToken token with
    | .error err => return .error (.wrap "store refresh token" err)
    | .ok () => return .ok (token, rawToken)

def hashPassword (password : String) : Prog Ans (Except GoErr String) := do
  if password = "" then return .ok ""
  match ← perform (.generateFromPassword password) with
  | .error err => return .error (.wrap "hash password" err)
  | .ok hash => return .ok hash

def createAccountAndToken (provider : AuthProvider) (subject password installID : String) :
    Prog Ans (Except GoErr (String × RefreshToken × String)) := do
  match ← perform .newUUID with
  | .error err => return .error (.wrap "generate account id" err)
  | .ok accountID =>
    match ← perform .newUUID with
    | .error err => return .error (.wrap "generate identity id" err)
    | .ok identityID =>
      match ← hashPassword password with
      | .error err => return .error err
      | .ok passwordHash =>
        let now : Time ← perform .now
        let account : Account := { id := accountID, createdAt := now, updatedAt := now }
        let identity : Identity := { id := identityID, accountID, provider, subject, passwordHash, linkedAt := now }
        match ← newToken c accountID installID with
        | .error err => return .error err
        | .ok (token, rawToken) =>
          match ← perform (.createAccountTx account identity token) with
          | .error err => return .error err
          | .ok () => return .ok (accountID, token, rawToken)

def unix (t : Time) : Nat := t / 10 ^ 9

def grant (accountID : String) (token : RefreshToken) (rawToken : String) : AuthenticationGrant :=
  ⟨accountID, rawToken, unix token.expiresAt⟩

def guestResult (accountID : String) (token : RefreshToken) (rawToken : String) (created : Bool) : MessageResult :=
  ⟨guestAuthenticateResponse, .guest (grant accountID token rawToken) created⟩

def passwordResult (accountID : String) (token : RefreshToken) (rawToken : String) : MessageResult :=
  ⟨passwordAuthenticateResponse, .password (grant accountID token rawToken)⟩

def guestLogin (identity : Identity) (installID : String) : Handler := do
  match ← issueToken c identity.accountID installID with
  | .error err => return .error err
  | .ok (token, rawToken) => return .ok (guestResult identity.accountID token rawToken false)

def guestAuthenticateCore (request : GuestAuthenticateRequest) : Handler := do
  let installID := trimSpace request.installID
  match ← perform (.findIdentity .guest installID) with
  | .ok identity => guestLogin c identity installID
  | .error err =>
    if !err.is errIdentityNotFound then return .error (.wrap "find guest identity" err)
    match ← createAccountAndToken c .guest installID "" installID with
    | .ok (accountID, token, rawToken) => return .ok (guestResult accountID token rawToken true)
    | .error createErr =>
      match ← perform (.findIdentity .guest installID) with
      | .error _ => return .error (.wrap "create guest account" createErr)
      | .ok identity => guestLogin c identity installID

def errInvalidCredentials : GoErr := .new "invalid username or password"

def acceptsCredentials (username password installID : String) : Bool :=
  !(username == "" || password == "" || installID == "" || username.utf8ByteSize < 3 || 64 < username.utf8ByteSize ||
    password.utf8ByteSize < 6 || 128 < password.utf8ByteSize)

def passwordLogin (identity : Identity) (password installID : String) : Handler := do
  if identity.passwordHash = "" ∨ ¬ c.compareHashAndPassword identity.passwordHash password then
    return .error errInvalidCredentials
  match ← issueToken c identity.accountID installID with
  | .error err => return .error err
  | .ok (token, rawToken) => return .ok (passwordResult identity.accountID token rawToken)

def passwordAuthenticateCore (request : PasswordAuthenticateRequest) : Handler := do
  let username := trimSpace request.username
  let installID := trimSpace request.installID
  if !acceptsCredentials username request.password installID then return .error errInvalidCredentials
  match ← perform (.findIdentity .password username) with
  | .ok identity => passwordLogin c identity request.password installID
  | .error err =>
    if !err.is errIdentityNotFound then return .error (.wrap "find password identity" err)
    match ← createAccountAndToken c .password username request.password installID with
    | .ok (accountID, token, rawToken) => return .ok (passwordResult accountID token rawToken)
    | .error createErr =>
      match ← perform (.findIdentity .password username) with
      | .error _ => return .error (.wrap "create password account" createErr)
      | .ok identity => passwordLogin c identity request.password installID

def refreshAuthenticateCore (request : RefreshAuthenticateRequest) : Handler := do
  let now : Time ← perform .now
  match ← perform (.findValid (c.authHashToken request.refreshToken) now) with
  | .error err => return .error (.wrap "find refresh token" err)
  | .ok oldToken =>
    if !oldToken.isUsable now (trimSpace request.installID) then return .error errInvalidToken
    match ← newToken c oldToken.accountID request.installID with
    | .error err => return .error err
    | .ok (replacement, rawToken) =>
      match ← rotate oldToken.id now replacement with
      | .error err => return .error (.wrap "rotate refresh token" err)
      | .ok () =>
        return .ok ⟨refreshAuthenticateResponse, .refresh (grant oldToken.accountID replacement rawToken)⟩

def revokeRefreshTokenCore (request : RevokeRefreshTokenRequest) : Handler := do
  let now : Time ← perform .now
  match ← perform (.findValid (c.authHashToken request.refreshToken) now) with
  | .error _ => return .error errInvalidToken
  | .ok token =>
    if token.accountID ≠ trimSpace request.accountID then return .error errInvalidToken
    let now : Time ← perform .now
    match ← perform (.revoke token.id now) with
    | .error err => return .error (.wrap "revoke refresh token" err)
    | .ok () => return .ok ⟨revokeRefreshTokenResponse, .revoke⟩

/-- `clientLoginGrant` and `clientRefreshGrant` repackage the grant of another
core's message. -/
def Message.grant? : Message → Option AuthenticationGrant
  | .guest grant _ | .password grant | .refresh grant => some grant
  | .revoke => none
  | .clientLogin grant | .clientRefresh grant => grant

def clientLoginGrant (result : MessageResult) : MessageResult :=
  ⟨clientLoginAuthenticateResponse, .clientLogin result.message.grant?⟩

def clientRefreshGrant (result : MessageResult) : MessageResult :=
  ⟨clientRefreshAuthenticateResponse, .clientRefresh result.message.grant?⟩

def clientLoginAuthenticateCore (login : LoginRequest) : Handler :=
  match login.provider with
  | .provider .guest => do
    match ← guestAuthenticateCore c { installID := login.installID, idempotencyKey := login.idempotencyKey } with
    | .error err => return .error err
    | .ok result => return .ok (clientLoginGrant result)
  | .provider .password => do
    match ← passwordAuthenticateCore c
      { username := login.username, password := login.password, installID := login.installID,
        idempotencyKey := login.idempotencyKey } with
    | .error err => return .error err
    | .ok result => return .ok (clientLoginGrant result)
  | _ => return .error (.new "authentication provider is not enabled")

def clientRefreshAuthenticateCore (refresh : RefreshLoginRequest) : Handler := do
  match ← refreshAuthenticateCore c
    { refreshToken := refresh.refreshToken, installID := refresh.installID,
      idempotencyKey := refresh.idempotencyKey } with
  | .error err => return .error err
  | .ok result => return .ok (clientRefreshGrant result)

end

end GameServer.UserCenter
