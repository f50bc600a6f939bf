import GameServer.IdempotencySound
import GameServer.PasswordSound
import GameServer.Recovery

/-!
# The user center: a request that is sent again

A request with a key has been answered. Until its record expires the same
request is answered from the record, in any interleaving, and the second call
writes to nothing but the locks. The stored message comes back as it was; the
id of the answer is chosen anew, by the operation, and for the two operations of
clients it is not the one the handler has answered with.
-/

namespace GameServer.UserCenter

def Request.messageID : Request → UInt32
  | .guest _ => guestAuthenticateResponse
  | .password _ => passwordAuthenticateResponse
  | .refresh _ => refreshAuthenticateResponse
  | .revoke _ => revokeRefreshTokenResponse
  | .clientLogin _ => clientLoginAuthenticateResponse
  | .clientRefresh _ => clientRefreshAuthenticateResponse

namespace Replay

attribute [local irreducible] trimSpace

variable {c : DomainAuthComponent} {calls : List Call} {i : Nat} {e : Env} {w w' : World} {cmd : Cmd} {request : Request}
  {key : String} {α : Type}

/-! ## The ids of first answers -/

def Identified (id : UInt32) (r : Except GoErr MessageResult) : Prop := ∀ res, r = .ok res → res.messageID = id

theorem identified_error {id : UInt32} {err : GoErr} : Identified id (.error err) := fun _ h => by cases h

theorem identified_ok {id : UInt32} {message : Message} : Identified id (.ok ⟨id, message⟩) := by
  intro res h
  cases h
  rfl

theorem returns_bind {p : Prog Ans α} {f : α → Handler} {id : UInt32} (hf : ∀ a, (f a).Returns (Identified id)) :
    (p >>= f).Returns (Identified id) := (Prog.returns_true p).bind fun a _ => hf a

section
variable (c)

theorem returns_guestLogin (identity : Identity) (installID : String) :
    (guestLogin c identity installID).Returns (Identified guestAuthenticateResponse) := by
  refine returns_bind fun r => ?_
  cases r with
  | error err => exact identified_error
  | ok issued => exact identified_ok

theorem returns_guestAuthenticateCore (r : GuestAuthenticateRequest) :
    (guestAuthenticateCore c r).Returns (Identified guestAuthenticateResponse) := by
  refine returns_bind fun found => ?_
  cases found with
  | ok identity => exact returns_guestLogin c identity _
  | error err =>
    dsimp only
    split
    · exact identified_error
    refine returns_bind fun created => ?_
    cases created with
    | ok created => exact identified_ok
    | error err =>
      refine returns_bind fun found => ?_
      cases found with
      | error err => exact identified_error
      | ok identity => exact returns_guestLogin c identity _

theorem returns_passwordLogin (identity : Identity) (password installID : String) :
    (passwordLogin c identity password installID).Returns (Identified passwordAuthenticateResponse) := by
  unfold passwordLogin
  split
  · exact identified_error
  refine returns_bind fun r => ?_
  cases r with
  | error err => exact identified_error
  | ok issued => exact identified_ok

theorem returns_passwordAuthenticateCore (r : PasswordAuthenticateRequest) :
    (passwordAuthenticateCore c r).Returns (Identified passwordAuthenticateResponse) := by
  unfold passwordAuthenticateCore
  dsimp only
  split
  · exact identified_error
  refine returns_bind fun found => ?_
  cases found with
  | ok identity => exact returns_passwordLogin c identity _ _
  | error err =>
    dsimp only
    split
    · exact identified_error
    refine returns_bind fun created => ?_
    cases created with
    | ok created => exact identified_ok
    | error err =>
      refine returns_bind fun found => ?_
      cases found with
      | error err => exact identified_error
      | ok identity => exact returns_passwordLogin c identity _ _

theorem returns_refreshAuthenticateCore (r : RefreshAuthenticateRequest) :
    (refreshAuthenticateCore c r).Returns (Identified refreshAuthenticateResponse) := by
  refine returns_bind fun now => returns_bind fun found => ?_
  cases found with
  | error err => exact identified_error
  | ok token =>
    dsimp only
    split
    · exact identified_error
    refine returns_bind fun replacement => ?_
    cases replacement with
    | error err => exact identified_error
    | ok replacement =>
      refine returns_bind fun rotated => ?_
      cases rotated with
      | error err => exact identified_error
      | ok u => exact identified_ok

theorem returns_revokeRefreshTokenCore (r : RevokeRefreshTokenRequest) :
    (revokeRefreshTokenCore c r).Returns (Identified revokeRefreshTokenResponse) := by
  refine returns_bind fun now => returns_bind fun found => ?_
  cases found with
  | error err => exact identified_error
  | ok token =>
    dsimp only
    split
    · exact identified_error
    refine returns_bind fun now => returns_bind fun revoked => ?_
    cases revoked with
    | error err => exact identified_error
    | ok u => exact identified_ok

theorem returns_clientLoginAuthenticateCore (r : LoginRequest) :
    (clientLoginAuthenticateCore c r).Returns (Identified clientLoginAuthenticateResponse) := by
  unfold clientLoginAuthenticateCore
  split
  · refine returns_bind fun granted => ?_
    cases granted with
    | error err => exact identified_error
    | ok result => exact identified_ok
  · refine returns_bind fun granted => ?_
    cases granted with
    | error err => exact identified_error
    | ok result => exact identified_ok
  · exact identified_error

theorem returns_core (request : Request) : (request.core c).Returns (Identified request.messageID) := by
  cases request with
  | guest r => exact returns_guestAuthenticateCore c r
  | password r => exact returns_passwordAuthenticateCore c r
  | refresh r => exact returns_refreshAuthenticateCore c r
  | revoke r => exact returns_revokeRefreshTokenCore c r
  | clientLogin r => exact returns_clientLoginAuthenticateCore c r
  | clientRefresh r =>
    refine returns_bind fun granted => ?_
    cases granted with
    | error err => exact identified_error
    | ok result => exact identified_ok

end

/-! ## The record of an answer -/

structure Stays (w w' : World) : Prop where
  clock : w.clock ≤ w'.clock
  kept : ∀ d ∈ w.records, d.isCompleted → w'.clock < d.expiresAt → d ∈ w'.records

def Later (w w' : World) : Prop := Login.Later w w' ∧ Stays w w'

theorem Later.refl (w : World) : Later w w := ⟨Login.Later.refl w, Nat.le_refl _, fun _ h _ _ => h⟩

theorem Later.trans {w'' : World} (h : Later w w') (h' : Later w' w'') : Later w w'' := by
  refine ⟨h.1.trans h'.1, Nat.le_trans h.2.clock h'.2.clock, fun d hd hc hlt => ?_⟩
  exact h'.2.kept d (h.2.kept d hd hc (Nat.lt_of_le_of_lt h'.2.clock hlt)) hc hlt

def Stands (d : IdempotencyRecord) (w : World) : Prop := w.clock < d.expiresAt → d ∈ w.records

theorem Stands.later {d : IdempotencyRecord} (h : Stands d w) (hc : d.isCompleted) (hl : Later w w') : Stands d w' :=
  fun hlt => hl.2.kept d (h (Nat.lt_of_le_of_lt hl.2.clock hlt)) hc hlt

structure Holds (c : DomainAuthComponent) (request : Request) (message : Message) (d : IdempotencyRecord) : Prop where
  key : d.key = trimSpace request.idempotencyKey
  completed : d.isCompleted = true
  operation : d.operation = request.operation
  hash : d.requestHash = c.digest (clearIdempotencyKey request)
  response : d.response = some message

def Stored (c : DomainAuthComponent) (request : Request) (res : MessageResult) (w : World) : Prop :=
  (res.messageID = request.messageID ∨ res.messageID = responseMessageID request.operation) ∧
    ∃ d, Holds c request res.message d ∧ Stands d w

theorem Stored.later {res : MessageResult} (h : Stored c request res w) (hl : Later w w') : Stored c request res w' := by
  obtain ⟨hid, d, hd, hstands⟩ := h
  exact ⟨hid, d, hd, hstands.later hd.completed hl⟩

def facts (c : DomainAuthComponent) (calls : List Call) (i : Nat) (request : Request) : Facts World where
  time now w := now ≤ w.clock
  read d w := Login.Tagged c calls w d ∧ d.key = trimSpace request.idempotencyKey ∧ (d.isCompleted → Stands d w)
  drawn id w := (i, id) ∈ w.drawn
  owned _ := True
  done result w := Grants c w request result.message ∧ result.messageID = request.messageID
  fine r w := ∀ res, r = .ok res → Stored c request res w

section
variable (c calls)

abbrev Sound (i : Nat) (post : World → α → Prop) (prog : Prog Ans α) (w : World) : Prop :=
  Pool.Safe (exec c) (fun _ _ _ _ => True) (Login.Inv c calls) (fun _ => Later) i post prog w

abbrev Does (i : Nat) (cmd : Cmd) (pre : World → Prop) (gives : Ans cmd → World → Prop) : Prop :=
  Pool.Does (exec c) (fun _ _ _ _ => True) (Login.Inv c calls) (fun _ => Later) i cmd pre gives

end

theorem stays_exec (ha : Record.Allowed w.clock cmd) {r : Ans cmd} (h : exec c i e w cmd = some (r, w')) : Stays w w' :=
  have hmoves := Record.moves_exec ha h
  ⟨hmoves.clock, hmoves.kept⟩

theorem does_of_login {P Q : World → Prop} {gives gives' : Ans cmd → World → Prop} (h : Login.Does c calls i cmd Q gives')
    (hpre : ∀ w, P w → Q w) (ha : ∀ w, P w → Record.Allowed w.clock cmd)
    (hg : ∀ e w r w', Login.Inv c calls w → Login.Inv c calls w' → P w → exec c i e w cmd = some (r, w') → gives r w') :
    Does c calls i cmd P gives := by
  intro e w r w' hi hP hG hx
  obtain ⟨hi', hrely, -⟩ := h e w r w' hi (hpre w hP) hG hx
  exact ⟨hi', fun j => ⟨hrely j, stays_exec (ha w hP) hx⟩, hg e w r w' hi hi' hP hx⟩

theorem does_quiet {P : World → Prop} {gives : Ans cmd → World → Prop} (hc : cmd.sparesAuth) (htags : Login.Cmd.tags cmd = false)
    (ha : ∀ w, P w → Record.Allowed w.clock cmd)
    (hg : ∀ e w r w', Login.Inv c calls w' → exec c i e w cmd = some (r, w') → gives r w') : Does c calls i cmd P gives := by
  have hquiet : Login.Does c calls i cmd (fun _ => True) fun _ _ => True :=
    Login.does_quiet hc htags fun _ _ _ _ _ _ _ => trivial
  exact does_of_login hquiet (fun _ _ => trivial) ha fun e w r w' _ hi' _ hx => hg e w r w' hi' hx

section
variable {call : Call} (hcall : calls[i]? = some call) (hrequest : call.request = some request)
include hcall hrequest

theorem does_complete {reservationID : String} {result : MessageResult} {now : Time} :
    Does c calls i (.complete (trimSpace request.idempotencyKey) reservationID result.message now)
      (fun w => (facts c calls i request).drawn reservationID w ∧ (facts c calls i request).done result w)
      fun r w => r = .ok () → (facts c calls i request).fine (.ok result) w := by
  refine does_of_login (Login.does_complete hcall hrequest) (fun w h => ⟨h.1, h.2.1⟩) (fun _ _ => trivial) ?_
  intro e w r w' hi _ hP hx hr res heq
  cases heq
  subst hr
  refine ⟨.inl hP.2.2, ?_⟩
  rcases exec_complete hx with ⟨⟨_, h⟩, _⟩ | hok
  · cases h
  obtain ⟨d, hd, hp, -, hmem⟩ := complete_ok hok
  simp only [ownedFilter, Bool.and_eq_true, beq_iff_eq] at hp
  obtain ⟨j, callj, requestj, hcallj, hrequestj, hdrawnj, hoperation, hhash, -⟩ := hi.records d hd
  -- a reservation id is drawn once, so the record was reserved by this call
  obtain rfl : j = i := hi.owner j i _ (hp.1.2 ▸ hdrawnj) hP.1
  obtain rfl : callj = call := Option.some.inj (hcallj.symm.trans hcall)
  obtain rfl : requestj = request := Option.some.inj (hrequestj.symm.trans hrequest)
  exact ⟨d.completedWith result.message, ⟨hp.1.1.1, rfl, hoperation, hhash, rfl⟩, fun _ => (hmem _).mpr (.inr rfl)⟩

omit hcall hrequest in
theorem stored_replay {d : IdempotencyRecord} (hread : (facts c calls i request).read d w) (hc : d.isCompleted) :
    (facts c calls i request).fine
      (replayIdempotency d request.operation (c.digest (clearIdempotencyKey request))) w := by
  intro res hres
  obtain ⟨⟨_, _, _, _, _, _, _, _, hresponse⟩, hkey, hstands⟩ := hread
  obtain ⟨message, hmessage, -⟩ := hresponse hc
  unfold replayIdempotency at hres
  split at hres
  · cases hres
  rename_i hsame
  obtain ⟨hoperation, hhash⟩ := not_or.mp hsame
  cases hres
  rw [hmessage, Option.getD_some]
  exact ⟨.inr rfl, d, ⟨hkey, hc, not_not.mp hoperation, not_not.mp hhash, hmessage⟩, hstands hc⟩

theorem rules :
    (facts c calls i request).Rules (exec c) (fun _ _ _ _ => True) (Login.Inv c calls) Later i c
      (trimSpace request.idempotencyKey) request.operation (c.digest (clearIdempotencyKey request)) where
  refl := Later.refl
  trans := fun _ _ _ => Later.trans
  time_later := fun _ _ _ h hl => Nat.le_trans h hl.2.clock
  read_later := fun _ _ _ h hl => ⟨h.1.later hl.1, h.2.1, fun hc => (h.2.2 hc).later hc hl⟩
  drawn_later := fun _ _ _ h hl => hl.1.drawn _ h
  done_later := fun _ _ _ h hl => ⟨Login.Grants.later h.1 hl.1, h.2⟩
  fine_later := fun _ _ _ h hl res hres => (h res hres).later hl
  error := fun _ _ _ h => by cases h
  replay := fun _ _ => stored_replay
  now := does_quiet rfl rfl (fun _ _ => trivial) fun e w r w' _ hx => by
    rcases exec_cases hx with hx | ⟨_, hr, _⟩
    · cases hx
      exact Nat.le_refl _
    · cases hr
  newUUID := fun e w r w' hi hP hG hx => by
    obtain ⟨hi', hrely, hdrawn⟩ := Login.does_newUUID (P := fun _ => True) e w r w' hi hP hG hx
    exact ⟨hi', fun j => ⟨hrely j, stays_exec (show Record.Allowed w.clock .newUUID from trivial) hx⟩, hdrawn⟩
  findRecord := fun now => does_quiet rfl rfl (fun _ _ => trivial) fun e w r w' hi hx d hr => by
    obtain ⟨rfl, hok⟩ := exec_findRecord hx
    obtain ⟨hd, hkey, -⟩ := findRecord_ok (hok d hr)
    exact ⟨hi.records d hd, hkey, fun _ _ => hd⟩
  insertRecord := fun _ _ => does_of_login (Login.does_insertRecord hcall hrequest) (fun _ h => h) (fun _ _ => rfl)
    fun _ _ _ _ _ _ _ _ _ => trivial
  deleteStale := fun _ => does_quiet rfl rfl (fun _ h => h) fun _ _ _ _ _ _ => trivial
  claim := fun _ _ _ _ hoperation hhash => does_of_login (Login.does_claim hcall hrequest hoperation hhash)
    (fun _ h => ⟨h.1.1, h.2⟩) (fun _ _ => trivial) fun _ _ _ _ _ _ _ _ _ _ => trivial
  complete := fun _ _ _ => does_complete hcall hrequest
  tame := by
    intro cmd hcmd
    cases cmd with
    | release _ _ | renew _ _ _ _ | ticks | acquireLock _ _ | lock _ | unlock _ | releaseLock _ _ _ =>
      exact does_quiet rfl rfl (fun _ _ => trivial) fun _ _ _ _ _ _ => trivial
    | _ => cases hcmd

end

theorem Sound.of_login {post : World → α → Prop} {Q : α → Prop} {prog : Prog Ans α} (h : Login.Sound c calls i post prog w)
    (huses : prog.Uses fun cmd => ∀ t, Record.Allowed t cmd) (hreturns : prog.Returns Q) :
    Sound c calls i (fun w a => post w a ∧ Q a) prog w :=
  Pool.Safe.and_rely (fun _ _ _ _ _ ha hx _ => stays_exec (ha _) hx) huses hreturns h

theorem sound_core (request : Request) (w : World) :
    Sound c calls i (fun w r => ∀ result, r = .ok result → (facts c calls i request).done result w) (request.core c) w := by
  have huses : (request.core c).Uses fun cmd => ∀ t, Record.Allowed t cmd :=
    (spares_core c request).mono fun cmd hc => Record.allowed_of_sparesRecords hc
  refine (Sound.of_login (Login.sound_core request) huses (returns_core c request)).mono fun w r h result hr => ?_
  exact ⟨(h.1 result hr).1, h.2 result hr⟩

def post (c : DomainAuthComponent) (calls : List Call) (i : Nat) (w : World) (r : Reply) : Prop :=
  ∀ call request res, calls[i]? = some call → call.request = some request → trimSpace request.idempotencyKey ≠ "" →
    r = some (.ok res) → Stored c request res w

theorem sound_withIdempotency {call : Call} (hcall : calls[i]? = some call) (hrequest : call.request = some request) (site : Site) :
    Sound c calls i (fun w r => ∀ res, trimSpace request.idempotencyKey ≠ "" → r = .ok res → Stored c request res w)
      (withIdempotency c site request.idempotencyKey request.operation request (request.core c)) w := by
  by_cases hkey : trimSpace request.idempotencyKey = ""
  · rw [withIdempotency, if_pos hkey]
    exact (sound_core request w).mono fun _ _ _ _ h => absurd hkey h
  · exact (Facts.Rules.withIdempotency hkey (rules hcall hrequest) fun w _ => sound_core request w).mono
      fun _ _ h res _ hres => h res hres

theorem sound_handler {call : Call} (hcall : calls[i]? = some call) : Sound c calls i (post c calls i) (call.handler c) w := by
  have hbackground : ∀ prog : Prog Ans Reply, Login.Sound c calls i (fun _ _ => True) prog w →
      prog.Uses (fun cmd => ∀ t, Record.Allowed t cmd) → Sound c calls i (fun _ _ => True) prog w := fun prog h huses =>
    (Sound.of_login h huses (Prog.returns_true prog)).mono fun _ _ _ => trivial
  refine (safe_handler (Q := fun request w r => ∀ res, trimSpace request.idempotencyKey ≠ "" → r = .ok res →
      Stored c request res w) (fun site request hreq => ?_) ?_ (fun id => ?_) fun key => ?_).mono
    fun w r h call' request res hcall' hreq hkey hr => ?_
  · exact sound_withIdempotency hcall hreq site
  · refine hbackground _ ?_ ⟨fun _ => trivial, fun _ => ⟨fun _ => trivial, fun _ => trivial⟩⟩
    simp only [Call.handler, perform, Prog.perform_bind]
    exact Login.sound_quiet rfl rfl fun _ w _ => Login.sound_quiet rfl rfl fun _ w _ => trivial
  · refine hbackground _ ?_ ⟨fun _ => trivial, fun _ => trivial⟩
    simp only [Call.handler, perform, Prog.perform_bind]
    exact Login.sound_call Login.does_expireToken fun _ w _ _ => trivial
  · refine hbackground _ ?_ ⟨fun _ => trivial, fun _ => trivial⟩
    simp only [Call.handler, perform, Prog.perform_bind]
    exact Login.sound_quiet rfl rfl fun _ w _ => trivial
  · cases hcall.symm.trans hcall'
    exact h request res hreq hr res hkey rfl

theorem good_run (c : DomainAuthComponent) (calls : List Call) (clock : Time) (sched : List (Nat × Env)) :
    Pool.Good (exec c) (fun _ _ _ _ => True) (Login.Inv c calls) (fun _ => Later) (post c calls)
      (Pool.run (exec c) (State.init c (.init clock) calls) sched) := by
  refine Pool.safe_run (fun _ => Later.refl) (fun _ _ _ _ => Later.trans) ?_ (Pool.along_any _ sched)
  exact Pool.good_start (fun _ => Later.refl) (Login.inv_init clock) (Pool.forall_map fun _ _ => sound_handler)

/-! ## The second call -/

def Finds (d : IdempotencyRecord) : (cmd : Cmd) → Ans cmd → Prop
  | .now, now => now < d.expiresAt
  | .findRecord key now, r => key = d.key → now < d.expiresAt → r = .ok d
  | _, _ => True

theorem findRecord_stands {d : IdempotencyRecord} (hd : d ∈ w.records) (hkey : d.key ≠ "") {now : Time} (hlt : now < d.expiresAt) :
    w.findRecord d.key now = .ok d := by
  have hfind : w.records.findOne (fun r => r.key == d.key && decide (now < r.expiresAt)) = some d := by
    refine Coll.findOne_eq_some hd (by simp [hlt]) fun x hx hp => ?_
    simp only [Bool.and_eq_true, beq_iff_eq] at hp
    simp [idempotencyIndexes, hp.1]
  simp only [World.findRecord, if_neg hkey, hfind]

theorem finds_of_exec {d : IdempotencyRecord} (hd : d ∈ w.records) (hkey : d.key ≠ "") (hfail : e.fail = none)
    (hlt : w.clock + e.delay < d.expiresAt) {r : Ans cmd} (hx : exec c i e w cmd = some (r, w')) : Finds d cmd r := by
  simp only [exec, hfail] at hx
  cases cmd with
  | now =>
    cases hx
    exact hlt
  | findRecord key now =>
    cases hx
    rintro rfl hnow
    exact findRecord_stands (w := w.tick e.delay) hd hkey hnow
  | _ => trivial

def replayed (request : Request) (message : Message) : MessageResult := ⟨responseMessageID request.operation, message⟩

theorem replay_holds {d : IdempotencyRecord} {message : Message} (hd : Holds c request message d) :
    replayIdempotency d request.operation (c.digest (clearIdempotencyKey request)) = .ok (replayed request message) := by
  simp [replayIdempotency, replayed, hd.operation, hd.hash, hd.response]

theorem within_withIdempotency {d : IdempotencyRecord} {message : Message} (hd : Holds c request message d)
    (hkey : trimSpace request.idempotencyKey ≠ "") (site : Site) (execute : Handler) :
    (withIdempotency c site request.idempotencyKey request.operation request execute).Within
      (fun cmd => cmd.sparesAuth = true) (Finds d) (fun r => r = .ok (replayed request message)) := by
  unfold withIdempotency
  simp only [if_neg hkey, perform, Prog.perform_bind]
  refine ⟨rfl, fun entry _ => ⟨rfl, fun _ _ => Prog.Within.bind (R := fun r => r = .ok (replayed request message)) ?_ ?_⟩⟩
  · simp only [coordinate, perform, Prog.perform_bind]
    refine ⟨rfl, fun now hnow => ⟨rfl, fun r hr => ?_⟩⟩
    obtain rfl : r = .ok d := hr hd.key.symm hnow
    simp only [hd.completed, if_true, replay_holds hd]
    exact rfl
  · rintro _ rfl
    exact ⟨rfl, fun _ _ => ⟨rfl, fun _ _ => rfl⟩⟩

def payload : Request → Payload
  | .guest r => .guestAuthenticate (some r)
  | .password r => .passwordAuthenticate (some r)
  | .refresh r => .refreshAuthenticate (some r)
  | .revoke r => .revokeRefreshToken (some r)
  | .clientLogin r => .clientLoginAuthenticate (some (some r))
  | .clientRefresh r => .clientRefreshAuthenticate (some (some r))

theorem eq_payload {sent : Payload} (h : sent.request = some request) : sent = payload request := by
  cases sent with
  | guestAuthenticate sent | passwordAuthenticate sent | refreshAuthenticate sent | revokeRefreshToken sent =>
    obtain ⟨r, rfl, rfl⟩ := Option.map_eq_some_iff.mp h
    rfl
  | clientLoginAuthenticate sent | clientRefreshAuthenticate sent =>
    obtain ⟨r, hr, rfl⟩ := Option.map_eq_some_iff.mp h
    obtain rfl := Option.join_eq_some_iff.mp hr
    rfl

theorem serve_of_success {s : State} {res : MessageResult} {clock : Time} {sched : List (Nat × Env)}
    (hs : s = Pool.run (exec c) (State.init c (.init clock) calls) sched) (h : Succeeded calls s i request res) {payload : Payload}
    (hpayload : payload.request = some request) (site : Site) :
    serve c site payload = withIdempotency c site request.idempotencyKey request.operation request (request.core c) := by
  obtain ⟨⟨site₀, payload₀, hcall, hpayload₀⟩, hans⟩ := h
  obtain rfl : payload = payload₀ := (eq_payload hpayload).trans (eq_payload hpayload₀).symm
  rcases serve_eq c payload with ⟨err, heq⟩ | ⟨request', hrequest', heq⟩
  · -- a refused payload is answered with its error from the start
    have hproc : (State.init c (.init clock) calls).procs[i]? = some (.ret (some (.error err))) := by
      simp only [State.init, Pool.start, List.getElem?_map, hcall, Option.map_some, Call.handler, heq]
      rfl
    have hret : (State.init c (.init clock) calls).answer i = some (some (.error err)) := by
      simp only [Pool.answer, hproc]
    rw [hs, Pool.answer_run_of_some (exec c) sched hret] at hans
    cases hans
  · obtain rfl : request' = request := Option.some.inj (hrequest'.symm.trans hpayload)
    exact heq site

/-! ## The second call by itself -/

structure Quiet (T : Time) (w w' : World) : Prop where
  same : SameAuth w w'
  records : w'.records = w.records
  before : w'.clock < T

theorem alone_quiet {T : Time} {post : World → α → Prop} {k : Ans cmd → Prog Ans α} (hc : cmd.sparesAuth) (hr : cmd.sparesRecords)
    {w₀ : World} (h : Quiet T w₀ w) (hcan : ∃ r w', w.answer c i cmd {} = some (r, w'))
    (hk : ∀ e r w', Quiet T w₀ w' → w.clock + e.delay < T → (w.tick e.delay).answer c i cmd e = some (r, w') →
      Recovery.Total c T Eq i post (k r) w') : Recovery.Total c T Eq i post (.call cmd k) w := by
  obtain ⟨r, w', hx⟩ := hcan
  refine Recovery.alone_call h.before ⟨{}, r, w', rfl, rfl, hx⟩ fun e r w' hT hx => hk e r w' ?_ hT hx
  refine ⟨h.same.answer hc hx, (answer_sparesRecords hr hx).trans h.records, ?_⟩
  rw [answer_sparesAuth hc hx]
  exact hT

theorem total_withIdempotency {d : IdempotencyRecord} {message : Message} (hd : Holds c request message d)
    (hkey : trimSpace request.idempotencyKey ≠ "") (hmem : d ∈ w.records) (hlt : w.clock < d.expiresAt) (site : Site)
    (execute : Handler) (hunlocked : w.locks.table.lookup (site.process, trimSpace request.idempotencyKey) = none) :
    Recovery.Total c d.expiresAt Eq i (fun w' r => r = .ok (replayed request message) ∧ SameAuth w w')
      (withIdempotency c site request.idempotencyKey request.operation request execute) w := by
  have hlock : ∀ delay, ∃ locks, (w.tick delay).locks.acquire site.process (trimSpace request.idempotencyKey) =
      ((w.locks.acquire site.process (trimSpace request.idempotencyKey)).1, locks) ∧
      ∃ locks', locks.lock (w.locks.acquire site.process (trimSpace request.idempotencyKey)).1 = some locks' := by
    intro delay
    refine ⟨_, rfl, ?_⟩
    simp [World.tick, LockTable.acquire, hunlocked, LockTable.lock]
  unfold withIdempotency
  simp only [if_neg hkey, perform, Prog.perform_bind]
  refine alone_quiet rfl rfl ⟨⟨rfl, rfl, rfl⟩, rfl, hlt⟩ ⟨_, _, rfl⟩ fun e entry w₁ h₁ hT hx => ?_
  obtain ⟨locks, hacquire, locks', hfree⟩ := hlock e.delay
  simp only [World.answer, hacquire] at hx
  cases hx
  refine alone_quiet rfl rfl h₁ ⟨(), _, by simp only [World.answer, hfree, Option.map_some]; rfl⟩ fun e _ w₂ h₂ hT hx => ?_
  refine Pool.Total.bind ?_
  simp only [coordinate, perform, Prog.perform_bind]
  refine alone_quiet rfl rfl h₂ ⟨_, _, rfl⟩ fun e now w₃ h₃ hT hx => ?_
  obtain rfl : now = w₂.clock + e.delay := by
    cases hx
    rfl
  refine alone_quiet rfl rfl h₃ ⟨_, _, rfl⟩ fun e r w₄ h₄ _ hx => ?_
  have hr : r = .ok d := by
    have hrecord : d ∈ (w₃.tick e.delay).records := h₃.records.symm ▸ hmem
    have hfind := findRecord_stands hrecord (hd.key ▸ hkey) hT
    simp only [World.answer, ← hd.key, hfind] at hx
    cases hx
    rfl
  subst hr
  simp only [hd.completed, if_true, replay_holds hd]
  refine alone_quiet rfl rfl h₄ ⟨_, _, rfl⟩ fun e _ w₅ h₅ _ _ => ?_
  exact alone_quiet rfl rfl h₅ ⟨_, _, rfl⟩ fun e _ w₆ h₆ _ _ => ⟨rfl, h₆.same⟩

theorem exists_unlocked (w : World) (key : String) : ∃ process, w.locks.table.lookup (process, key) = none := by
  obtain ⟨process, hprocess⟩ := Infinite.exists_notMem_finset (w.locks.table.keys.map (·.1)).toFinset
  refine ⟨process, AList.lookup_eq_none.mpr fun hmem => hprocess ?_⟩
  exact List.mem_toFinset.mpr (List.mem_map_of_mem (AList.mem_keys.mp hmem))

theorem along_finds {s : State} {post : Nat → World → Reply → Prop}
    (hgood : Pool.Good (exec c) (fun _ _ _ _ => True) (Login.Inv c calls) (fun _ => Later) post s) {d : IdempotencyRecord}
    (hc : d.isCompleted) (hstands : Stands d s.world) (hkey : d.key ≠ "") {after : List (Nat × Env)}
    (hfail : ∀ a ∈ after, a.1 = i → a.2.fail = none) (hend : (Pool.run (exec c) s after).world.clock < d.expiresAt) :
    Pool.Along (exec c) (Pool.AnswersWithin (exec c) (Finds d) i) s after := by
  refine Pool.along_of_split (exec c) after s fun as a bs hsplit hi cmd k r w hp hx => ?_
  have hlater : Later s.world (Pool.run (exec c) s as).world := Pool.later_run Later.refl (fun _ _ _ => Later.trans) as hgood
    (Pool.along_any s as)
  -- the clock does not go back, so what is before the deadline at the end is before it now
  have hclock : (Pool.run (exec c) s as).world.clock + a.2.delay < d.expiresAt := by
    refine Nat.lt_of_le_of_lt ?_ hend
    subst hi
    rw [hsplit, Pool.run_append, Pool.run_cons, ← exec_clock hx, ← (Pool.step_of_exec (exec c) hp hx).1]
    exact Record.clock_run bs _
  have hmem : d ∈ (Pool.run (exec c) s as).world.records :=
    hstands.later hc hlater (Nat.lt_of_le_of_lt (Nat.le_add_right ..) hclock)
  exact finds_of_exec hmem hkey (hfail a (hsplit ▸ List.mem_append_right _ (List.mem_cons_self ..)) hi) hclock hx

end Replay

/-- While the record has not expired, the same request is answered like this: in
any interleaving with other calls, when the store does not fail it; and it comes
to its end, alone at a process that does not use the key. It writes nothing to
accounts, identities and tokens. -/
structure Replayed (c : DomainAuthComponent) (s : State) (request : Request) (expiresAt : Time) (res : MessageResult) : Prop where
  interleaved : ∀ after j site payload, payload.request = some request →
    s.procs[j]? = some (Call.handler c (.serve site payload)) → (∀ a ∈ after, a.1 = j → a.2.fail = none) →
    (Pool.run (exec c) s after).world.clock < expiresAt →
      (∀ m ∈ Pool.trace (exec c) s after, m.pid = j → SameAuth m.old m.new) ∧
      ∀ r, (Pool.run (exec c) s after).answer j = some r → r = some (.ok res)
  alone : ∀ j site payload, payload.request = some request →
    s.world.locks.table.lookup (site.process, trimSpace request.idempotencyKey) = none →
      Pool.Total (exec c) (Healthy expiresAt) Eq j (fun w r => r = .ok res ∧ SameAuth s.world w) (serve c site payload) s.world

namespace Replay

attribute [local irreducible] trimSpace

variable {c : DomainAuthComponent} {calls : List Call} {clock : Time} {before : List (Nat × Env)} {i : Nat} {request : Request}
  {res : MessageResult} {d : IdempotencyRecord}

theorem replayed_of_holds (hkey : trimSpace request.idempotencyKey ≠ "")
    (hfirst : Succeeded calls (Pool.run (exec c) (State.init c (.init clock) calls) before) i request res)
    (hd : Holds c request res.message d)
    (hstands : Stands d (Pool.run (exec c) (State.init c (.init clock) calls) before).world)
    (hlive : (Pool.run (exec c) (State.init c (.init clock) calls) before).world.clock < d.expiresAt) :
    Replayed c (Pool.run (exec c) (State.init c (.init clock) calls) before) request d.expiresAt
      (replayed request res.message) := by
  refine ⟨fun after j site payload hpayload hproc hfail hend => ?_, fun j site payload hpayload hunlocked => ?_⟩
  · have hwithin : (Call.handler c (.serve site payload)).Within (fun cmd => cmd.sparesAuth = true) (Finds d)
        (fun r => r = some (.ok (replayed request res.message))) := by
      simp only [Call.handler, serve_of_success rfl hfirst hpayload]
      refine (within_withIdempotency hd hkey site _).bind fun r hr => ?_
      rw [hr]
      exact rfl
    have halong := along_finds (good_run c calls clock before) hd.completed hstands (hd.key ▸ hkey) hfail hend
    obtain ⟨⟨p, hp, hpw⟩, htrace⟩ := Pool.within_run after hproc hwithin halong
    refine ⟨fun m hm hpid => ?_, fun r hr => ?_⟩
    · rcases htrace m hm hpid with heq | ⟨e, cmd, r, hc, hx⟩
      · rw [heq]
        exact ⟨rfl, rfl, rfl⟩
      · obtain ⟨⟨ha, hi, -⟩, ht⟩ := Login.exec_sparesAuth hc hx
        exact ⟨ha, hi, ht⟩
    · obtain rfl : p = .ret r := Option.some.inj (hp.symm.trans (Pool.answer_eq_some hr))
      exact hpw
  · rw [serve_of_success rfl hfirst hpayload]
    exact total_withIdempotency hd hkey (hstands hlive) hlive site _ hunlocked

theorem replayed_unique {s : State} {T : Time} {res' : MessageResult} {payload : Payload} (hpayload : payload.request = some request)
    (h : Replayed c s request T res) (h' : Replayed c s request T res') : res = res' := by
  -- both speak of one call, alone at a process that does not use the key
  obtain ⟨process, hprocess⟩ := exists_unlocked s.world (trimSpace request.idempotencyKey)
  obtain ⟨w, r, ⟨hr, -⟩, hr', -⟩ := ((h.alone 0 ⟨process, 0⟩ payload hpayload hprocess).and
    (h'.alone 0 ⟨process, 0⟩ payload hpayload hprocess)).exists_post fun _ => rfl
  exact Except.ok.inj (hr.symm.trans hr')

theorem replayed_eq_iff (hid : res.messageID = request.messageID) : replayed request res.message = res ↔
    request.operation ≠ .clientLoginAuthenticate ∧ request.operation ≠ .clientRefreshAuthenticate := by
  have hiff : replayed request res.message = res ↔ responseMessageID request.operation = request.messageID := by
    obtain ⟨id, message⟩ := res
    obtain rfl : id = request.messageID := hid
    exact ⟨fun h => congrArg MessageResult.messageID h, fun h => congrArg (MessageResult.mk · message) h⟩
  rw [hiff]
  cases request with
  | guest _ | password _ | refresh _ | revoke _ => exact ⟨fun _ => ⟨nofun, nofun⟩, fun _ => rfl⟩
  | clientLogin _ =>
    exact ⟨fun h => absurd h (show revokeRefreshTokenResponse ≠ clientLoginAuthenticateResponse by decide), fun h => absurd rfl h.1⟩
  | clientRefresh _ =>
    exact ⟨fun h => absurd h (show revokeRefreshTokenResponse ≠ clientRefreshAuthenticateResponse by decide), fun h => absurd rfl h.2⟩

theorem stored_of_success (hkey : trimSpace request.idempotencyKey ≠ "")
    (hfirst : Succeeded calls (Pool.run (exec c) (State.init c (.init clock) calls) before) i request res) :
    Stored c request res (Pool.run (exec c) (State.init c (.init clock) calls) before).world := by
  obtain ⟨⟨site, payload, hcall, hpayload⟩, hans⟩ := hfirst
  obtain ⟨u, hu, hlater⟩ := (good_run c calls clock before).ret i _ (Pool.answer_eq_some hans)
  exact (hu _ request res hcall hpayload hkey rfl).later hlater

end Replay

def retriedClientLogin : List Call :=
  [.serve {} (.clientLoginAuthenticate
      (some (some { provider := .provider .guest, installID := "phone", idempotencyKey := "k" }))),
    .serve {} (.clientLoginAuthenticate
      (some (some { provider := .provider .guest, installID := "phone", idempotencyKey := "k" })))]

end GameServer.UserCenter
