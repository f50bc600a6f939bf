import GameServer.UserCenter

/-!
# The user center: idempotent execution and the handlers

`Reserve` command by command, the wrapper `withIdempotency` and the handlers it
is put around. The renewal goroutine of `executeReserved` takes its steps
between the commands of the execution it protects, as often as the environment
says; a call that waits gives up when its context ends, after `polls` rounds.
-/

namespace GameServer.UserCenter

/-! ## The idempotency repository -/

def contend (record : IdempotencyRecord) (now : Time) (current : IdempotencyRecord) :
    Prog Ans (Except GoErr (IdempotencyRecord × Bool)) := do
  if current.operation ≠ record.operation ∨ current.requestHash ≠ record.requestHash then
    return .error errIdempotencyConflict
  if current.isCompleted then return .ok (current, false)
  if now < current.leaseUntil then return .ok (current, false)
  match ← perform (.claim record.key current.reservationID now record.reservationID record.leaseUntil) with
  | .error err => return .error (.wrap "claim idempotency record" err)
  | .ok (some claimed) => return .ok (claimed, true)
  | .ok none =>
    match ← perform (.findRecord record.key now) with
    | .error err => return .error err
    | .ok latest => return .ok (latest, false)

def replaceStale (record : IdempotencyRecord) (now : Time) (err : GoErr) :
    Prog Ans (Except GoErr (IdempotencyRecord × Bool)) := do
  match ← perform (.deleteStale record.key now) with
  | .error deleteErr => return .error (.wrap "remove stale idempotency record" deleteErr)
  | .ok false => return .error err
  | .ok true =>
    match ← perform (.insertRecord record) with
    | .ok => return .ok (record, true)
    | .failed insertErr => return .error (.wrap "reserve idempotency record after stale cleanup" insertErr)
    | .duplicate =>
      match ← perform (.findRecord record.key now) with
      | .error err => return .error err
      | .ok current => contend record now current

def reserve (record : IdempotencyRecord) (now : Time) : Prog Ans (Except GoErr (IdempotencyRecord × Bool)) := do
  if record.reservationID = "" ∨ record.leaseUntil = 0 then return .error errInvalidIdempotency
  match record.validate now with
  | .error err => return .error err
  | .ok () =>
    let today : Time ← perform .now
    match record.validate today with
    | .error err => return .error err
    | .ok () =>
      match ← perform (.insertRecord record) with
      | .ok => return .ok (record, true)
      | .failed err => return .error (.wrap "reserve idempotency record" err)
      | .duplicate =>
        match ← perform (.findRecord record.key now) with
        | .ok current => contend record now current
        | .error err => if err.is errIdempotencyNotFound then replaceStale record now err else return .error err

def renew (key reservationID : String) (leaseUntil now : Time) : Prog Ans (Except GoErr Unit) := do
  if key = "" ∨ reservationID = "" ∨ leaseUntil ≤ now then return .error errInvalidIdempotency
  perform (.renew key reservationID leaseUntil now)

/-! ## Idempotent execution -/

section
variable (c : DomainAuthComponent)

def renewIdempotencyLease (key reservationID : String) : Nat → Prog Ans (Option GoErr)
  | 0 => return none
  | ticks + 1 => do
    let now : Time ← perform .now
    match ← renew key reservationID (now + c.idempotencyLease) now with
    | .error err => return some err
    | .ok () => renewIdempotencyLease key reservationID ticks

def renewInterval : Nat :=
  if c.idempotencyRenewInterval = 0 then c.idempotencyLease / 3 else c.idempotencyRenewInterval

def renewals (key reservationID : String) : Prog Ans (Option GoErr) := do
  if renewInterval c = 0 then return none
  let ticks : Nat ← perform .ticks
  renewIdempotencyLease c key reservationID ticks

/-- The execution with the renewal goroutine beside it, and the error the
goroutine has sent. It ends with its first error, and the execution goes on. -/
def withRenewal {α : Type} (key reservationID : String) : Prog Ans α → Prog Ans (α × Option GoErr)
  | .ret a => do
    let leaseErr ← renewals c key reservationID
    return (a, leaseErr)
  | .call cmd k => do
    match ← renewals c key reservationID with
    | some err => Prog.call cmd fun r => (k r).bind fun a => return (a, some err)
    | none => Prog.call cmd fun r => withRenewal key reservationID (k r)

def executeReserved (key reservationID : String) (execute : Handler) : Handler := do
  match ← withRenewal c key reservationID execute with
  | (.error err, _) =>
    let _ ← perform (.release key reservationID)
    return .error err
  | (.ok _, some leaseErr) =>
    let _ ← perform (.release key reservationID)
    return .error leaseErr
  | (.ok result, none) =>
    let now : Time ← perform .now
    match ← perform (.complete key reservationID result.message now) with
    | .error err => return .error err
    | .ok () => return .ok result

def responseMessageID : Operation → UInt32
  | .guestAuthenticate => guestAuthenticateResponse
  | .passwordAuthenticate => passwordAuthenticateResponse
  | .refreshAuthenticate => refreshAuthenticateResponse
  | _ => revokeRefreshTokenResponse

def Message.zero : Operation → Message
  | .guestAuthenticate => .guest ⟨"", "", 0⟩ false
  | .passwordAuthenticate => .password ⟨"", "", 0⟩
  | .refreshAuthenticate => .refresh ⟨"", "", 0⟩
  | .revokeRefreshToken => .revoke
  | .clientLoginAuthenticate => .clientLogin none
  | .clientRefreshAuthenticate => .clientRefresh none

def replayIdempotency (record : IdempotencyRecord) (operation : Operation) (requestHash : String) :
    Except GoErr MessageResult :=
  if record.operation ≠ operation ∨ record.requestHash ≠ requestHash then .error errIdempotencyConflict
  else .ok ⟨responseMessageID operation, record.response.getD (.zero operation)⟩

def pendingRecord (key : String) (operation : Operation) (requestHash reservationID : String) (now : Time) :
    IdempotencyRecord where
  key := key
  operation := operation
  requestHash := requestHash
  state := .pending
  reservationID := reservationID
  leaseUntil := now + c.idempotencyLease
  createdAt := now
  expiresAt := now + c.idempotencyTTL

section
variable (key : String) (operation : Operation) (requestHash : String) (execute : Handler)

def poll (again : Handler) (now : Time) : Handler := do
  match ← perform (.findRecord key now) with
  | .ok record => if record.isCompleted then return replayIdempotency record operation requestHash else again
  | .error err => if err.is errIdempotencyNotFound then again else return .error err

def waitRound (again : Time → Handler) (deadline : Time) : Handler := do
  let now : Time ← perform .now
  if deadline < now then
    match ← perform .newUUID with
    | .error err => return .error err
    | .ok reservationID =>
      match ← reserve (pendingRecord c key operation requestHash reservationID now) now with
      | .error err => return .error err
      | .ok (_, true) => executeReserved c key reservationID execute
      | .ok (claimed, false) =>
        if claimed.isCompleted then return replayIdempotency claimed operation requestHash
        poll key operation requestHash (again claimed.leaseUntil) now
  else poll key operation requestHash (again deadline) now

def waitForIdempotency : Nat → Time → Handler
  | 0 => waitRound c key operation requestHash execute fun _ => return .error (.driver "context canceled")
  | polls + 1 => waitRound c key operation requestHash execute (waitForIdempotency polls)

def coordinate (polls : Nat) : Handler := do
  let now : Time ← perform .now
  match ← perform (.findRecord key now) with
  | .ok record =>
    if record.isCompleted then return replayIdempotency record operation requestHash
    if record.operation ≠ operation ∨ record.requestHash ≠ requestHash then return .error errIdempotencyConflict
    waitForIdempotency c key operation requestHash execute polls record.leaseUntil
  | .error err =>
    if !err.is errIdempotencyNotFound then return .error (.wrap "find idempotency record" err)
    match ← perform .newUUID with
    | .error err => return .error (.wrap "generate idempotency reservation" err)
    | .ok reservationID =>
      let pending := pendingRecord c key operation requestHash reservationID now
      match ← reserve pending now with
      | .error err => return .error err
      | .ok (_, true) => executeReserved c key reservationID execute
      | .ok (claimed, false) =>
        if claimed.isCompleted then return replayIdempotency claimed operation requestHash
        waitForIdempotency c key operation requestHash execute polls pending.leaseUntil

end

/-- A call's own circumstances: the process that serves it, and the rounds it
waits before its context ends. -/
structure Site where
  process : Nat := 0
  polls : Nat := 0

def withIdempotency (site : Site) (key : String) (operation : Operation) (request : Request) (execute : Handler) :
    Handler :=
  let key := trimSpace key
  if key = "" then execute
  else do
    let entry : Nat ← perform (.acquireLock site.process key)
    perform (.lock entry)
    let result ← coordinate c key operation (c.digest (clearIdempotencyKey request)) execute site.polls
    perform (.unlock entry)
    perform (.releaseLock site.process key entry)
    return result

/-! ## Handlers

A payload is `none` when it does not decode. -/

def guestAuthenticate (site : Site) : Option GuestAuthenticateRequest → Handler
  | none => return .error (.new "install_id is required")
  | some request =>
    if trimSpace request.installID = "" then return .error (.new "install_id is required")
    else withIdempotency c site request.idempotencyKey .guestAuthenticate (.guest request) (guestAuthenticateCore c request)

def passwordAuthenticate (site : Site) : Option PasswordAuthenticateRequest → Handler
  | none => return .error (.new "invalid password authentication request")
  | some request =>
    withIdempotency c site request.idempotencyKey .passwordAuthenticate (.password request)
      (passwordAuthenticateCore c request)

def refreshAuthenticate (site : Site) : Option RefreshAuthenticateRequest → Handler
  | none => return .error (.new "refresh_token and install_id are required")
  | some request =>
    if trimSpace request.refreshToken = "" ∨ trimSpace request.installID = "" then
      return .error (.new "refresh_token and install_id are required")
    else
      withIdempotency c site request.idempotencyKey .refreshAuthenticate (.refresh request)
        (refreshAuthenticateCore c request)

def revokeRefreshToken (site : Site) : Option RevokeRefreshTokenRequest → Handler
  | none => return .error (.new "account_id and refresh_token are required")
  | some request =>
    if trimSpace request.accountID = "" ∨ trimSpace request.refreshToken = "" then
      return .error (.new "account_id and refresh_token are required")
    else
      withIdempotency c site request.idempotencyKey .revokeRefreshToken (.revoke request)
        (revokeRefreshTokenCore c request)

def clientLoginAuthenticate (site : Site) : Option (Option LoginRequest) → Handler
  | none => return .error (.new "invalid client login authentication request")
  | some none => return .error (.new "invalid client login request")
  | some (some login) =>
    if trimSpace login.installID = "" then return .error (.new "install_id is required")
    else
      withIdempotency c site login.idempotencyKey .clientLoginAuthenticate (.clientLogin login)
        (clientLoginAuthenticateCore c login)

def clientRefreshAuthenticate (site : Site) : Option (Option RefreshLoginRequest) → Handler
  | none => return .error (.new "invalid client refresh authentication request")
  | some none => return .error (.new "invalid client refresh login request")
  | some (some refresh) =>
    if trimSpace refresh.refreshToken = "" ∨ trimSpace refresh.installID = "" then
      return .error (.new "refresh_token and install_id are required")
    else
      withIdempotency c site refresh.idempotencyKey .clientRefreshAuthenticate (.clientRefresh refresh)
        (clientRefreshAuthenticateCore c refresh)

inductive Payload
  | guestAuthenticate (payload : Option GuestAuthenticateRequest)
  | passwordAuthenticate (payload : Option PasswordAuthenticateRequest)
  | refreshAuthenticate (payload : Option RefreshAuthenticateRequest)
  | revokeRefreshToken (payload : Option RevokeRefreshTokenRequest)
  | clientLoginAuthenticate (payload : Option (Option LoginRequest))
  | clientRefreshAuthenticate (payload : Option (Option RefreshLoginRequest))

def serve (site : Site) : Payload → Handler
  | .guestAuthenticate payload => guestAuthenticate c site payload
  | .passwordAuthenticate payload => passwordAuthenticate c site payload
  | .refreshAuthenticate payload => refreshAuthenticate c site payload
  | .revokeRefreshToken payload => revokeRefreshToken c site payload
  | .clientLoginAuthenticate payload => clientLoginAuthenticate c site payload
  | .clientRefreshAuthenticate payload => clientRefreshAuthenticate c site payload

def Payload.request : Payload → Option Request
  | .guestAuthenticate payload => payload.map .guest
  | .passwordAuthenticate payload => payload.map .password
  | .refreshAuthenticate payload => payload.map .refresh
  | .revokeRefreshToken payload => payload.map .revoke
  | .clientLoginAuthenticate payload => payload.join.map .clientLogin
  | .clientRefreshAuthenticate payload => payload.join.map .clientRefresh

def Request.idempotencyKey : Request → String
  | .guest r => r.idempotencyKey
  | .password r => r.idempotencyKey
  | .refresh r => r.idempotencyKey
  | .revoke r => r.idempotencyKey
  | .clientLogin r => r.idempotencyKey
  | .clientRefresh r => r.idempotencyKey

def Request.operation : Request → Operation
  | .guest _ => .guestAuthenticate
  | .password _ => .passwordAuthenticate
  | .refresh _ => .refreshAuthenticate
  | .revoke _ => .revokeRefreshToken
  | .clientLogin _ => .clientLoginAuthenticate
  | .clientRefresh _ => .clientRefreshAuthenticate

def Request.core : Request → Handler
  | .guest r => guestAuthenticateCore c r
  | .password r => passwordAuthenticateCore c r
  | .refresh r => refreshAuthenticateCore c r
  | .revoke r => revokeRefreshTokenCore c r
  | .clientLogin r => clientLoginAuthenticateCore c r
  | .clientRefresh r => clientRefreshAuthenticateCore c r

attribute [local irreducible] trimSpace

theorem serve_eq (payload : Payload) :
    (∃ err, ∀ site, serve c site payload = .ret (.error err)) ∨ ∃ request, payload.request = some request ∧ ∀ site,
      serve c site payload =
        withIdempotency c site request.idempotencyKey request.operation request (request.core c) := by
  cases payload with
  | guestAuthenticate payload =>
    cases payload with
    | none => exact .inl ⟨_, fun _ => rfl⟩
    | some request =>
      by_cases h : trimSpace request.installID = ""
      · exact .inl ⟨_, fun _ => if_pos h⟩
      · exact .inr ⟨_, rfl, fun _ => if_neg h⟩
  | passwordAuthenticate payload =>
    cases payload with
    | none => exact .inl ⟨_, fun _ => rfl⟩
    | some request => exact .inr ⟨_, rfl, fun _ => rfl⟩
  | refreshAuthenticate payload =>
    cases payload with
    | none => exact .inl ⟨_, fun _ => rfl⟩
    | some request =>
      by_cases h : trimSpace request.refreshToken = "" ∨ trimSpace request.installID = ""
      · exact .inl ⟨_, fun _ => if_pos h⟩
      · exact .inr ⟨_, rfl, fun _ => if_neg h⟩
  | revokeRefreshToken payload =>
    cases payload with
    | none => exact .inl ⟨_, fun _ => rfl⟩
    | some request =>
      by_cases h : trimSpace request.accountID = "" ∨ trimSpace request.refreshToken = ""
      · exact .inl ⟨_, fun _ => if_pos h⟩
      · exact .inr ⟨_, rfl, fun _ => if_neg h⟩
  | clientLoginAuthenticate payload =>
    match payload with
    | none => exact .inl ⟨_, fun _ => rfl⟩
    | some none => exact .inl ⟨_, fun _ => rfl⟩
    | some (some login) =>
      by_cases h : trimSpace login.installID = ""
      · exact .inl ⟨_, fun _ => if_pos h⟩
      · exact .inr ⟨_, rfl, fun _ => if_neg h⟩
  | clientRefreshAuthenticate payload =>
    match payload with
    | none => exact .inl ⟨_, fun _ => rfl⟩
    | some none => exact .inl ⟨_, fun _ => rfl⟩
    | some (some refresh) =>
      by_cases h : trimSpace refresh.refreshToken = "" ∨ trimSpace refresh.installID = ""
      · exact .inl ⟨_, fun _ => if_pos h⟩
      · exact .inr ⟨_, rfl, fun _ => if_neg h⟩

theorem serve_cases (site : Site) (payload : Payload) :
    (∃ err, serve c site payload = .ret (.error err)) ∨ ∃ request, payload.request = some request ∧
      serve c site payload =
        withIdempotency c site request.idempotencyKey request.operation request (request.core c) := by
  rcases serve_eq c payload with ⟨err, h⟩ | ⟨request, hrequest, h⟩
  · exact .inl ⟨err, h site⟩
  · exact .inr ⟨request, hrequest, h site⟩

/-! ## Runs -/

/-- What goes on at the store: the requests, `RecoverExpired` when a process
starts, and the TTL monitor of the database, one document at a time. -/
inductive Call
  | serve (site : Site) (payload : Payload)
  | start
  | expireToken (tokenID : String)
  | expireRecord (key : String)

abbrev Reply := Option (Except GoErr MessageResult)

def Call.handler : Call → Prog Ans Reply
  | .serve site payload => do return some (← UserCenter.serve c site payload)
  | .start => do
    let now : Time ← perform .now
    let _ ← perform (.recoverExpired now)
    return none
  | .expireToken tokenID => do
    perform (.expireToken tokenID)
    return none
  | .expireRecord key => do
    perform (.expireRecord key)
    return none

abbrev State := Pool Ans World Reply

def State.init (w : World) (calls : List Call) : State := Pool.start w (calls.map (Call.handler c))

def Call.request : Call → Option Request
  | .serve _ payload => payload.request
  | _ => none

section

variable {c} {W E : Type} {run : Nat → E → W → (cmd : Cmd) → Option (Ans cmd × W)} {G : Nat → E → W → Cmd → Prop}
  {inv : W → Prop} {rely : Nat → W → W → Prop} {i : Nat} {w : W}

theorem safe_handler {Q : Request → W → Except GoErr MessageResult → Prop} {call : Call}
    (hrequest : ∀ site request, call.request = some request → Pool.Safe run G inv rely i (Q request)
      (withIdempotency c site request.idempotencyKey request.operation request (request.core c)) w)
    (hstart : Pool.Safe run G inv rely i (fun _ _ => True) (Call.handler c .start) w)
    (hexpireToken : ∀ id, Pool.Safe run G inv rely i (fun _ _ => True) (Call.handler c (.expireToken id)) w)
    (hexpireRecord : ∀ key, Pool.Safe run G inv rely i (fun _ _ => True) (Call.handler c (.expireRecord key)) w) :
    Pool.Safe run G inv rely i (fun w r => ∀ request res, call.request = some request → r = some (.ok res) →
      Q request w (.ok res)) (call.handler c) w := by
  cases call with
  | serve site payload =>
    have hserve : Pool.Safe run G inv rely i (fun w r => ∀ request res, payload.request = some request → r = .ok res →
        Q request w (.ok res)) (serve c site payload) w := by
      rcases serve_cases c site payload with ⟨err, heq⟩ | ⟨request, hreq, heq⟩
      · rw [heq]
        intro _ _ _ h
        cases h
      · rw [heq]
        refine (hrequest site request hreq).mono fun w r h request' res hreq' hr => ?_
        obtain rfl : request = request' := Option.some.inj (hreq.symm.trans hreq')
        exact hr ▸ h
    refine Pool.Safe.bind (hserve.mono fun w r h => ?_)
    exact fun request res hreq hr => h request res hreq (Option.some.inj hr)
  | start => exact hstart.mono fun _ _ _ _ _ h => by cases h
  | expireToken id => exact (hexpireToken id).mono fun _ _ _ _ _ h => by cases h
  | expireRecord key => exact (hexpireRecord key).mono fun _ _ _ _ _ h => by cases h

end

end

def Call.Keyless : Call → Prop
  | .serve _ payload => ∀ request, payload.request = some request → trimSpace request.idempotencyKey = ""
  | _ => True

theorem Call.Keyless.of_request {call : Call} (h : call.Keyless) {request : Request}
    (hrequest : call.request = some request) : trimSpace request.idempotencyKey = "" := by
  cases call with
  | serve site payload => exact h request hrequest
  | start | expireToken _ | expireRecord _ => cases hrequest

def Succeeded (calls : List Call) (s : State) (i : Nat) (request : Request) (res : MessageResult) : Prop :=
  (∃ site payload, calls[i]? = some (.serve site payload) ∧ payload.request = some request) ∧
    s.answer i = some (some (.ok res))

def plainComponent : DomainAuthComponent where
  refreshTokenTTL := 10 ^ 9
  authHashToken := id
  digest _ := "digest"
  compareHashAndPassword := (· == ·)

def drawing (moves : List (Nat × String)) : List (Nat × Env) := moves.map fun m => (m.1, { id := m.2 })

end GameServer.UserCenter
