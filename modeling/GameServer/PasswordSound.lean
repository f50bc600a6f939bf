import GameServer.LoginSound
import GameServer.Trace

/-!
# The user center: no grant without the password

With idempotency keys or without, a login by password is answered only while
the hash stored for its user name verifies the password it was sent with.
-/

namespace GameServer.UserCenter

def CollisionFree (c : DomainAuthComponent) (calls : List Call) : Prop :=
  ∀ call ∈ calls, ∀ call' ∈ calls, ∀ request request', call.request = some request → call'.request = some request' →
    request.operation = request'.operation →
    c.digest (clearIdempotencyKey request) = c.digest (clearIdempotencyKey request') →
      clearIdempotencyKey request = clearIdempotencyKey request'

def Verifies (c : DomainAuthComponent) (w : World) (username password : String) : Prop :=
  ∃ d ∈ w.identities, d.provider = .password ∧ d.subject = username ∧ d.passwordHash ≠ "" ∧
    c.compareHashAndPassword d.passwordHash password = true

namespace Login

attribute [local irreducible] trimSpace

variable {c : DomainAuthComponent} {calls : List Call} {i : Nat} {e : Env} {w w' : World} {request request' : Request}

theorem login_clear (request : Request) : (clearIdempotencyKey request).login = request.login := by
  cases request <;> rfl

theorem password_clear (request : Request) : (clearIdempotencyKey request).password? = request.password? := by
  cases request <;> rfl

theorem Grants.of_clear {m : Message} (h : Grants c w request m)
    (heq : clearIdempotencyKey request = clearIdempotencyKey request') : Grants c w request' m := by
  intro provider subject hlogin
  have hl : request.login = request'.login := by rw [← login_clear request, heq, login_clear]
  have hp : request.password? = request'.password? := by rw [← password_clear request, heq, password_clear]
  exact hp ▸ h provider subject (hl.trans hlogin)

/-! ## Keyed requests -/

def facts (c : DomainAuthComponent) (calls : List Call) (i : Nat) (request : Request) : Facts World where
  time _ _ := True
  read d w := Tagged c calls w d
  drawn id w := (i, id) ∈ w.drawn
  owned _ := True
  done result w := Grants c w request result.message
  fine r w := ∀ res, r = .ok res → Grants c w request res.message

theorem does_records {cmd : Cmd} {P : World → Prop} {gives : Ans cmd → World → Prop} (hc : cmd.sparesAuth)
    (h : ∀ e w r w', Inv c calls w → P w → exec c i e w cmd = some (r, w') →
      (Later w w' → ∀ r ∈ w'.records, r ∈ w.records ∨ Tagged c calls w' r) ∧ gives r w') : Does c calls i cmd P gives := by
  refine does_of_same fun e w r w' hi hP hx => ?_
  obtain ⟨hsame, htokens⟩ := exec_sparesAuth hc hx
  obtain ⟨hr, hgives⟩ := h e w r w' hi hP hx
  refine ⟨hsame, fun t ht => hi.tokens t (htokens ▸ ht), fun hl d hd => ?_, hgives⟩
  rcases hr hl d hd with hd | hd
  · exact (hi.records d hd).later hl
  · exact hd

section
variable {call : Call} (hcall : calls[i]? = some call) (hrequest : call.request = some request)
include hcall hrequest

theorem does_insertRecord {key reservationID : String} {now : Time} :
    Does c calls i (.insertRecord (pendingRecord c key request.operation (c.digest (clearIdempotencyKey request))
      reservationID now)) ((facts c calls i request).drawn reservationID) fun _ _ => True := by
  refine does_records rfl fun e w r w' hi hdrawn hx => ⟨fun hl d hd => ?_, trivial⟩
  rcases exec_effect hx with rfl | ⟨r₀, hx⟩
  · exact .inl hd
  simp only [World.answer] at hx
  split at hx
  · rename_i records hins
    cases hx
    rcases (Coll.mem_insertOne hins d).mp hd with rfl | hd
    · exact .inr ⟨i, call, request, hcall, hrequest, hl.drawn _ hdrawn, rfl, rfl, fun h => by cases h⟩
    · exact .inl hd
  · cases hx
    exact .inl hd

theorem does_claim {key reservationID : String} {now leaseUntil : Time} {current : IdempotencyRecord}
    (hoperation : current.operation = request.operation)
    (hhash : current.requestHash = c.digest (clearIdempotencyKey request)) :
    Does c calls i (.claim key current.reservationID now reservationID leaseUntil)
      (fun w => (facts c calls i request).read current w ∧ (facts c calls i request).drawn reservationID w)
      fun _ _ => True := by
  refine does_records rfl fun e w r w' hi hP hx => ⟨fun hl d hd => ?_, trivial⟩
  rcases exec_effect hx with rfl | ⟨r₀, hx⟩
  · exact .inl hd
  obtain ⟨o, w₁, hclaim⟩ : ∃ o w₁, (w.tick e.delay).claim key current.reservationID now reservationID leaseUntil = (o, w₁) :=
    ⟨_, _, rfl⟩
  simp only [World.answer, hclaim] at hx
  cases hx
  rcases claim_cases hclaim with ⟨_, rfl⟩ | ⟨d₀, hd₀, hp, _, _, hmem⟩
  · exact .inl hd
  rcases (hmem d).mp hd with ⟨hd, _⟩ | rfl
  · exact .inl hd
  simp only [claimFilter, Bool.and_eq_true, beq_iff_eq] at hp
  obtain ⟨⟨⟨_, hpending⟩, hsame⟩, _⟩ := hp
  obtain ⟨j, callj, requestj, hcallj, hrequestj, hdrawnj, hoperationj, hhashj, _⟩ := hi.records d₀ hd₀
  obtain ⟨k, callk, requestk, hcallk, hrequestk, hdrawnk, hoperationk, hhashk, _⟩ := hP.1
  obtain rfl : j = k := hi.owner j k _ (hsame ▸ hdrawnj) hdrawnk
  obtain rfl : callj = callk := Option.some.inj (hcallj.symm.trans hcallk)
  obtain rfl : requestj = requestk := Option.some.inj (hrequestj.symm.trans hrequestk)
  refine .inr ⟨i, call, request, hcall, hrequest, hl.drawn _ hP.2, ?_, ?_, fun h => ?_⟩
  · exact hoperationj.trans (hoperationk.symm.trans hoperation)
  · exact hhashj.trans (hhashk.symm.trans hhash)
  · simp [IdempotencyRecord.isCompleted, IdempotencyRecord.claimedBy, hpending] at h

theorem does_complete {key reservationID : String} {result : MessageResult} {now : Time} :
    Does c calls i (.complete key reservationID result.message now)
      (fun w => (facts c calls i request).drawn reservationID w ∧ (facts c calls i request).done result w)
      fun r w => r = .ok () → (facts c calls i request).fine (.ok result) w := by
  refine does_records rfl fun e w r w' hi hP hx => ⟨fun hl d hd => ?_, fun _ res heq => ?_⟩
  · rcases exec_complete hx with ⟨_, rfl⟩ | hok
    · exact .inl hd
    obtain ⟨d₀, hd₀, hp, _, hmem⟩ := complete_ok hok
    rcases (hmem d).mp hd with ⟨hd, _⟩ | rfl
    · exact .inl hd
    simp only [ownedFilter, Bool.and_eq_true, beq_iff_eq] at hp
    obtain ⟨⟨_, hsame⟩, _⟩ := hp
    obtain ⟨j, callj, requestj, hcallj, hrequestj, hdrawnj, hoperationj, hhashj, _⟩ := hi.records d₀ hd₀
    obtain rfl : j = i := hi.owner j i _ (hsame ▸ hdrawnj) hP.1
    obtain rfl : callj = call := Option.some.inj (hcallj.symm.trans hcall)
    obtain rfl : requestj = request := Option.some.inj (hrequestj.symm.trans hrequest)
    exact .inr ⟨j, callj, requestj, hcallj, hrequestj, hl.drawn _ hdrawnj, hoperationj, hhashj,
      fun _ => ⟨result.message, rfl, Grants.later hP.2 hl⟩⟩
  · cases heq
    have hsame := (exec_sparesAuth rfl hx).1.2.1
    intro provider subject hlogin
    obtain ⟨g, hg, d, hd, hrest⟩ := hP.2 provider subject hlogin
    exact ⟨g, hg, d, hsame ▸ hd, hrest⟩

theorem replay_grants (hfree : CollisionFree c calls) {d : IdempotencyRecord} (hread : (facts c calls i request).read d w)
    (hc : d.isCompleted) :
    (facts c calls i request).fine
      (replayIdempotency d request.operation (c.digest (clearIdempotencyKey request))) w := by
  intro res hres
  unfold replayIdempotency at hres
  split at hres
  · cases hres
  rename_i hsame
  obtain ⟨hoperation, hhash⟩ := not_or.mp hsame
  obtain ⟨j, callj, requestj, hcallj, hrequestj, _, hoperationj, hhashj, hgrants⟩ := hread
  obtain ⟨m, hm, hg⟩ := hgrants hc
  cases hres
  rw [hm, Option.getD_some]
  exact Grants.of_clear hg (hfree callj (List.mem_of_getElem? hcallj) call (List.mem_of_getElem? hcall) requestj request
    hrequestj hrequest (hoperationj.symm.trans (not_not.mp hoperation)) (hhashj.symm.trans (not_not.mp hhash)))

theorem rules (hfree : CollisionFree c calls) (key : String) :
    (facts c calls i request).Rules (exec c) (fun _ _ _ _ => True) (Inv c calls) Later i c key request.operation
      (c.digest (clearIdempotencyKey request)) where
  refl := Later.refl
  trans := fun _ _ _ => Later.trans
  time_later := fun _ _ _ _ _ => trivial
  read_later := fun _ _ _ h hl => h.later hl
  drawn_later := fun _ _ _ h hl => hl.drawn _ h
  done_later := fun _ _ _ h hl => Grants.later h hl
  fine_later := fun _ _ _ h hl res hres => Grants.later (h res hres) hl
  error := fun _ _ _ h => by cases h
  replay := fun _ _ => replay_grants hcall hrequest hfree
  now := does_quiet rfl rfl fun _ _ _ _ _ _ _ => trivial
  newUUID := does_newUUID
  findRecord := fun now => does_quiet rfl rfl fun e w r w' hi _ hx d hr => by
    obtain ⟨rfl, hok⟩ := exec_findRecord hx
    exact hi.records d (findRecord_ok (hok d hr)).1
  insertRecord := fun _ _ => (does_insertRecord hcall hrequest).mono fun _ _ _ _ => trivial
  deleteStale := fun _ => does_quiet rfl rfl fun _ _ _ _ _ _ _ => trivial
  claim := fun _ _ _ _ hoperation hhash => (does_claim hcall hrequest hoperation hhash).mono fun _ _ _ _ _ => trivial
  complete := fun _ _ _ => does_complete hcall hrequest
  tame := by
    intro cmd hcmd
    cases cmd with
    | release _ _ | renew _ _ _ _ | ticks | acquireLock _ _ | lock _ | unlock _ | releaseLock _ _ _ =>
      exact does_quiet rfl rfl fun _ _ _ _ _ _ _ => trivial
    | _ => cases hcmd

end

theorem sound_withIdempotency (hfree : CollisionFree c calls) {call : Call} (hcall : calls[i]? = some call)
    (hrequest : call.request = some request) (site : Site) :
    Sound c calls i (fun w r => ∀ res, r = .ok res → Grants c w request res.message)
      (withIdempotency c site request.idempotencyKey request.operation request (request.core c)) w := by
  have hcore : ∀ w, Sound c calls i (fun w r => ∀ res, r = .ok res → Grants c w request res.message) (request.core c) w :=
    fun w => (sound_core request).mono fun w r h res hres => (h res hres).1
  by_cases hkey : trimSpace request.idempotencyKey = ""
  · rw [withIdempotency, if_pos hkey]
    exact hcore w
  · exact Facts.Rules.withIdempotency hkey (rules hcall hrequest hfree _) fun w _ => hcore w

end Login

def PasswordLogin (calls : List Call) (i : Nat) (username password : String) : Prop :=
  ∃ call request, calls[i]? = some call ∧ call.request = some request ∧ request.login = some (.password, username) ∧
    request.password? = some password

namespace Login

attribute [local irreducible] trimSpace

variable {c : DomainAuthComponent} {calls : List Call} {w w' : World}

def post (c : DomainAuthComponent) (calls : List Call) (i : Nat) (w : World) (r : Reply) : Prop :=
  ∀ username password res, PasswordLogin calls i username password → r = some (.ok res) → Verifies c w username password

theorem good_post (hfree : CollisionFree c calls) (clock : Time) (sched : List (Nat × Env)) :
    Pool.Good (exec c) (fun _ _ _ _ => True) (Inv c calls) (fun _ => Later) (post c calls)
      (Pool.run (exec c) (State.init c (.init clock) calls) sched) := by
  refine good_run c calls (post c calls) (fun i call w hcall => ?_) clock sched
  refine (sound_handler (Q := fun request w r => ∀ res, r = .ok res → Grants c w request res.message)
    fun site request w hreq => sound_withIdempotency hfree hcall hreq site).mono fun w r h => ?_
  rintro username password res ⟨call', request, hcall', hreq, hlogin, hpassword⟩ hr
  cases hcall.symm.trans hcall'
  obtain ⟨g, _, d, hd, hprovider, hsubject, _, hverifies⟩ := h request res hreq hr res rfl _ _ hlogin
  exact ⟨d, hd, hprovider, hsubject, hverifies password hpassword⟩

theorem verifies_of_answer (hfree : CollisionFree c calls) {clock : Time} {before after : List (Nat × Env)} {i : Nat}
    {password : String} {res : MessageResult} {d : Identity}
    (hd : d ∈ (Pool.run (exec c) (State.init c (.init clock) calls) before).world.identities)
    (hprovider : d.provider = .password) (hlogin : PasswordLogin calls i d.subject password)
    (hans : (Pool.run (exec c) (State.init c (.init clock) calls) (before ++ after)).answer i = some (some (.ok res))) :
    c.compareHashAndPassword d.passwordHash password = true := by
  have hgood := good_post hfree clock (before ++ after)
  obtain ⟨w, hw, hl⟩ := hgood.ret i _ (Pool.answer_eq_some hans)
  obtain ⟨d', hd', hprovider', hsubject', _, hverifies⟩ := hw d.subject password res hlogin rfl
  have hrun := Pool.later_run Later.refl (fun _ _ _ => Later.trans) after (good_post hfree clock before)
    (Pool.along_any _ after)
  rw [← Pool.run_append] at hrun
  have heq := identity_eq (hrun.identities d hd) (hl.identities d' hd') (hprovider.trans hprovider'.symm) hsubject'.symm
  rw [heq]
  exact hverifies

end Login

open Login in
/-- A login by password, direct or of a client, with a key or without, is
answered with a grant only if the hash stored for its user name at that moment
verifies its password. So when two runs differ only in the password that call
`i` sends for a user name that exists, both are granted only if both passwords
verify. -/
theorem password_sound (c : DomainAuthComponent) (calls : List Call) (hfree : CollisionFree c calls) (clock : Time) :
    (∀ sched i username password res u, PasswordLogin calls i username password →
      (i, some (.ok res), u) ∈ (Pool.run (exec c) (State.init c (.init clock) calls) sched).returned →
        Verifies c u username password) ∧
    ∀ i call' password password' before after after' d res res', CollisionFree c (calls.set i call') →
      (∀ a ∈ before, a.1 ≠ i) →
      d ∈ (Pool.run (exec c) (State.init c (.init clock) calls) before).world.identities → d.provider = .password →
      PasswordLogin calls i d.subject password → PasswordLogin (calls.set i call') i d.subject password' →
      (Pool.run (exec c) (State.init c (.init clock) calls) (before ++ after)).answer i = some (some (.ok res)) →
      (Pool.run (exec c) (State.init c (.init clock) (calls.set i call')) (before ++ after')).answer i =
        some (some (.ok res')) →
      c.compareHashAndPassword d.passwordHash password = true ∧ c.compareHashAndPassword d.passwordHash password' = true := by
  refine ⟨fun sched i username password res u hlogin hmem => ?_, ?_⟩
  · exact (good_post hfree clock sched).post _ hmem username password res hlogin rfl
  · intro i call' password password' before after after' d res res' hfree' hbefore hd hprovider hlogin hlogin' hans hans'
    have hagree : Pool.AgreeOff i (State.init c (.init clock) calls) (State.init c (.init clock) (calls.set i call')) := by
      refine ⟨rfl, fun j hj => ?_⟩
      simp only [State.init, Pool.start, List.getElem?_map, List.getElem?_set_ne hj.symm]
    have hd' := (hagree.run before hbefore).world ▸ hd
    exact ⟨verifies_of_answer hfree hd hprovider hlogin hans, verifies_of_answer hfree' hd' hprovider hlogin' hans'⟩

def retriedPassword : List Call :=
  [.serve {} (.passwordAuthenticate
      (some { username := "anna", password := "secret", installID := "phone", idempotencyKey := "k" })),
    .serve { process := 1 } (.passwordAuthenticate
      (some { username := "anna", password := "secret", installID := "phone", idempotencyKey := " k" }))]

def registerThenRetry : List (Nat × Env) :=
  drawing ((["", "", "", "", "reservation", "", "", "", "", "", "account", "", "identity", "", "secret", "", "", "", "token",
    "", "raw", "", "", "", "", "", "", "", "", ""].map (0, ·)) ++ List.replicate 6 (1, ""))

theorem collisionFree_retriedPassword : CollisionFree plainComponent retriedPassword := by
  intro call hcall call' hcall' request request' hreq hreq' _ _
  simp only [retriedPassword, List.mem_cons, List.not_mem_nil, or_false] at hcall hcall'
  rcases hcall with rfl | rfl <;> rcases hcall' with rfl | rfl <;> cases hreq <;> cases hreq' <;> rfl

theorem password_sound_on_retry :
    ∃ u, (1, some (.ok ⟨passwordAuthenticateResponse, .password ⟨"account", "raw", 1⟩⟩), u) ∈
        (Pool.run (exec plainComponent) (State.init plainComponent (.init 5) retriedPassword) registerThenRetry).returned ∧
      Verifies plainComponent u "anna" "secret" := by
  have hreturned : (1, some (Except.ok ⟨passwordAuthenticateResponse, .password ⟨"account", "raw", 1⟩⟩)) ∈
      (Pool.run (exec plainComponent) (State.init plainComponent (.init 5) retriedPassword) registerThenRetry).returned.map
        fun x => (x.1, x.2.1) := by decide +kernel
  obtain ⟨⟨i, r, u⟩, hmem, heq⟩ := List.mem_map.mp hreturned
  cases heq
  exact ⟨u, hmem, (password_sound plainComponent retriedPassword collisionFree_retriedPassword 5).1 registerThenRetry
    1 "anna" "secret" _ u ⟨_, _, rfl, rfl, by decide, rfl⟩ hmem⟩

open Login in
/-- With keys or without, in any interleaving and with any failures: logins for one
identity are granted one account, accounts and identities belong together one to
one, and every token is that of an account. -/
theorem identities_keep_account (c : DomainAuthComponent) (calls : List Call) (hfree : CollisionFree c calls) (clock : Time)
    (sched : List (Nat × Env)) :
    let s := Pool.run (exec c) (State.init c (.init clock) calls) sched
    (∀ i j request request' res res' provider subject, Succeeded calls s i request res → Succeeded calls s j request' res' →
      request.login = some (provider, subject) → request'.login = some (provider, subject) →
        ∃ g g', res.message.grant? = some g ∧ res'.message.grant? = some g' ∧ g.accountID = g'.accountID) ∧
    (∀ a ∈ s.world.accounts, ∃ d ∈ s.world.identities, d.accountID = a.id ∧
      ∀ d' ∈ s.world.identities, d'.accountID = a.id → d' = d) ∧
    (∀ d ∈ s.world.identities, HasAccount s.world d.accountID) ∧ ∀ t ∈ s.world.tokens, HasAccount s.world t.accountID := by
  intro s
  let post : Nat → World → Reply → Prop := fun i w r => ∀ call request res, calls[i]? = some call →
    call.request = some request → r = some (.ok res) → Grants c w request res.message
  have hgood := good_run c calls post (fun i call w hcall => ?_) clock sched
  · have hsucc : ∀ i request res, Succeeded calls s i request res → Grants c s.world request res.message := by
      rintro i request res ⟨⟨site, payload, hcall, hreq⟩, hans⟩
      obtain ⟨w, hw, hl⟩ := hgood.ret i _ (Pool.answer_eq_some hans)
      exact Grants.later (hw _ request res hcall hreq rfl) hl
    refine ⟨fun i j request request' res res' provider subject h h' => ?_, hgood.world.identified, hgood.world.linked,
      hgood.world.tokens⟩
    exact Grants.accountID_eq (hsucc i request res h) (hsucc j request' res' h')
  · refine (sound_handler (Q := fun request w r => ∀ res, r = .ok res → Grants c w request res.message)
      fun site request w hreq => sound_withIdempotency hfree hcall hreq site).mono fun w r h => ?_
    intro call' request res hcall' hreq hr
    cases hcall.symm.trans hcall'
    exact h request res hreq hr res rfl

theorem identities_keep_account_on_retry :
    let s := Pool.run (exec plainComponent) (State.init plainComponent (.init 5) retriedPassword) registerThenRetry
    (s.answer 0).isSome = true ∧ (s.answer 1).isSome = true ∧ ∀ t ∈ s.world.tokens, Login.HasAccount s.world t.accountID := by
  exact ⟨by decide +kernel, by decide +kernel,
    (identities_keep_account plainComponent retriedPassword collisionFree_retriedPassword 5 registerThenRetry).2.2.2⟩

end GameServer.UserCenter
