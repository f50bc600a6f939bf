import GameServer.IdempotencyRules

/-!
# The user center: what a login is granted

An account is created together with its only identity, identities stay as they
are, and a login is answered for the identity of its provider and subject. Each
idempotency record belongs to the request whose call drew its reservation id,
so the response that is replayed from it was granted to an equal request.
-/

namespace GameServer.UserCenter

def Request.login : Request → Option (AuthProvider × String)
  | .guest r => some (.guest, trimSpace r.installID)
  | .password r => some (.password, trimSpace r.username)
  | .clientLogin r =>
    match r.provider with
    | .provider .guest => some (.guest, trimSpace r.installID)
    | .provider .password => some (.password, trimSpace r.username)
    | _ => none
  | _ => none

def Request.password? : Request → Option String
  | .password r => some r.password
  | .clientLogin r =>
    match r.provider with
    | .provider .password => some r.password
    | _ => none
  | _ => none

/-- The message grants the account of the identity with this provider and
subject, and the password that was sent verifies against its hash. -/
def GrantedTo (c : DomainAuthComponent) (w : World) (provider : AuthProvider) (subject : String) (password : Option String)
    (m : Message) : Prop :=
  ∃ g, m.grant? = some g ∧ ∃ d ∈ w.identities, d.provider = provider ∧ d.subject = subject ∧ d.accountID = g.accountID ∧
    ∀ p, password = some p → d.passwordHash ≠ "" ∧ c.compareHashAndPassword d.passwordHash p = true

def Grants (c : DomainAuthComponent) (w : World) (request : Request) (m : Message) : Prop :=
  ∀ provider subject, request.login = some (provider, subject) → GrantedTo c w provider subject request.password? m

namespace Login

attribute [local irreducible] trimSpace

/-! ## Invariant -/

def Tagged (c : DomainAuthComponent) (calls : List Call) (w : World) (r : IdempotencyRecord) : Prop :=
  ∃ (i : Nat) (call : Call) (request : Request), calls[i]? = some call ∧ call.request = some request ∧
    (i, r.reservationID) ∈ w.drawn ∧ r.operation = request.operation ∧
    r.requestHash = c.digest (clearIdempotencyKey request) ∧
    (r.isCompleted → ∃ m, r.response = some m ∧ Grants c w request m)

def HasAccount (w : World) (id : String) : Prop := ∃ a ∈ w.accounts, a.id = id

structure Inv (c : DomainAuthComponent) (calls : List Call) (w : World) : Prop where
  owner : ∀ i j x, (i, x) ∈ w.drawn → (j, x) ∈ w.drawn → i = j
  identified : ∀ a ∈ w.accounts, ∃ d ∈ w.identities, d.accountID = a.id ∧ ∀ d' ∈ w.identities, d'.accountID = a.id → d' = d
  linked : ∀ d ∈ w.identities, HasAccount w d.accountID
  tokens : ∀ t ∈ w.tokens, HasAccount w t.accountID
  records : ∀ r ∈ w.records, Tagged c calls w r

structure Later (w w' : World) : Prop where
  accounts : ∀ a ∈ w.accounts, a ∈ w'.accounts
  identities : ∀ d ∈ w.identities, d ∈ w'.identities
  drawn : ∀ x ∈ w.drawn, x ∈ w'.drawn

variable {c : DomainAuthComponent} {calls : List Call} {i : Nat} {e : Env} {w w' : World} {cmd : Cmd}

theorem Later.refl (w : World) : Later w w := ⟨fun _ h => h, fun _ h => h, fun _ h => h⟩

theorem Later.trans {w'' : World} (h : Later w w') (h' : Later w' w'') : Later w w'' :=
  ⟨fun a ha => h'.accounts a (h.accounts a ha), fun d hd => h'.identities d (h.identities d hd),
    fun x hx => h'.drawn x (h.drawn x hx)⟩

theorem HasAccount.later {id : String} (h : HasAccount w id) (hl : Later w w') : HasAccount w' id := by
  obtain ⟨a, ha, hid⟩ := h
  exact ⟨a, hl.accounts a ha, hid⟩

variable {provider : AuthProvider} {subject : String} {t : RefreshToken}

theorem GrantedTo.later {password : Option String} {m : Message} (h : GrantedTo c w provider subject password m)
    (hl : Later w w') : GrantedTo c w' provider subject password m := by
  obtain ⟨g, hg, d, hd, hrest⟩ := h
  exact ⟨g, hg, d, hl.identities d hd, hrest⟩

theorem Grants.later {request : Request} {m : Message} (h : Grants c w request m) (hl : Later w w') :
    Grants c w' request m := fun provider subject hlogin => GrantedTo.later (h provider subject hlogin) hl

theorem Tagged.later {r : IdempotencyRecord} (h : Tagged c calls w r) (hl : Later w w') : Tagged c calls w' r := by
  obtain ⟨i, call, request, hcall, hrequest, hdrawn, hoperation, hhash, hgrants⟩ := h
  refine ⟨i, call, request, hcall, hrequest, hl.drawn _ hdrawn, hoperation, hhash, fun hc => ?_⟩
  obtain ⟨m, hm, hg⟩ := hgrants hc
  exact ⟨m, hm, Grants.later hg hl⟩

/-! ## What commands do -/

def Keeps (w w' : World) : Prop :=
  ∀ r ∈ w'.records, ∃ r₀ ∈ w.records, r = r₀ ∨ r₀.state = .pending ∧ ∃ leaseUntil, r = r₀.renewedUntil leaseUntil

def Cmd.tags : Cmd → Bool
  | .insertRecord _ | .claim _ _ _ _ _ | .complete _ _ _ _ => true
  | _ => false

theorem keeps_answer (hcmd : Cmd.tags cmd = false) {r : Ans cmd} (h : w.answer c i cmd e = some (r, w')) : Keeps w w' := by
  have hsub : (∀ r ∈ w'.records, r ∈ w.records) → Keeps w w' := fun hsub r hr => ⟨r, hsub r hr, .inl rfl⟩
  cases cmd with
  | insertRecord _ | claim _ _ _ _ _ | complete _ _ _ _ => cases hcmd
  | deleteStale key now | release key reservationID | expireRecord key =>
    cases h
    exact hsub fun r hr => Coll.mem_of_mem_deleteOne hr
  | recoverExpired now =>
    cases h
    exact hsub fun r hr => (Coll.mem_deleteMany.mp hr).1
  | renew key reservationID leaseUntil now =>
    rcases commit_cases (Option.some.inj h) with ⟨_, _, _, rfl⟩ | ⟨hok, _⟩
    · exact hsub fun r hr => hr
    · obtain ⟨d, hd, hp, _, hmem⟩ := renew_ok hok
      simp only [ownedFilter, Bool.and_eq_true, beq_iff_eq] at hp
      intro r hr
      rcases (hmem r).mp hr with ⟨hr, _⟩ | rfl
      · exact ⟨r, hr, .inl rfl⟩
      · exact ⟨d, hd, .inr ⟨hp.1.1.2, leaseUntil, rfl⟩⟩
  | _ => exact hsub fun r hr => answer_sparesRecords rfl h ▸ hr

theorem keeps_exec (hcmd : Cmd.tags cmd = false) {r : Ans cmd} (h : exec c i e w cmd = some (r, w')) : Keeps w w' := by
  rcases exec_effect h with rfl | ⟨r₀, hx⟩
  · exact fun r hr => ⟨r, hr, .inl rfl⟩
  · exact keeps_answer (w := w.tick e.delay) hcmd hx

theorem Keeps.tagged (h : Keeps w w') (hl : Later w w') (hrecords : ∀ r ∈ w.records, Tagged c calls w r) :
    ∀ r ∈ w'.records, Tagged c calls w' r := by
  intro r hr
  obtain ⟨r₀, hr₀, rfl | ⟨hpending, leaseUntil, rfl⟩⟩ := h r hr
  · exact (hrecords r hr₀).later hl
  · exact (hrecords r₀ hr₀).later hl

def Draws (i : Nat) (w w' : World) : Prop :=
  w'.drawn = w.drawn ∨ ∃ x, (∀ y ∈ w.drawn, y.2 ≠ x) ∧ w'.drawn = (i, x) :: w.drawn

theorem Draws.mono (h : Draws i w w') : ∀ x ∈ w.drawn, x ∈ w'.drawn := by
  rcases h with h | ⟨x, _, h⟩
  · exact fun y hy => h ▸ hy
  · exact fun y hy => h ▸ List.mem_cons_of_mem _ hy

theorem Draws.owner (h : Draws i w w') (howner : ∀ j k x, (j, x) ∈ w.drawn → (k, x) ∈ w.drawn → j = k) :
    ∀ j k x, (j, x) ∈ w'.drawn → (k, x) ∈ w'.drawn → j = k := by
  rcases h with h | ⟨y, hfresh, h⟩
  · rw [h]
    exact howner
  · rw [h]
    intro j k x hj hk
    rcases List.mem_cons.mp hj with hj | hj
    · rcases List.mem_cons.mp hk with hk | hk
      · cases hj
        cases hk
        rfl
      · cases hj
        exact absurd rfl (hfresh _ hk)
    · rcases List.mem_cons.mp hk with hk | hk
      · cases hk
        exact absurd rfl (hfresh _ hj)
      · exact howner j k x hj hk

section
variable (c calls)

abbrev Sound {α : Type} (i : Nat) (post : World → α → Prop) (prog : Prog Ans α) (w : World) : Prop :=
  Pool.Safe (exec c) (fun _ _ _ _ => True) (Inv c calls) (fun _ => Later) i post prog w

abbrev Does (i : Nat) (cmd : Cmd) (pre : World → Prop) (gives : Ans cmd → World → Prop) : Prop :=
  Pool.Does (exec c) (fun _ _ _ _ => True) (Inv c calls) (fun _ => Later) i cmd pre gives

end

variable {P : World → Prop}

theorem does_of_same {gives : Ans cmd → World → Prop}
    (h : ∀ e w r w', Inv c calls w → P w → exec c i e w cmd = some (r, w') →
      (w'.accounts = w.accounts ∧ w'.identities = w.identities ∧ Draws i w w') ∧
      (∀ t ∈ w'.tokens, HasAccount w t.accountID) ∧
      (Later w w' → ∀ r ∈ w'.records, Tagged c calls w' r) ∧ gives r w') : Does c calls i cmd P gives := by
  intro e w r w' hi hP _ hx
  obtain ⟨⟨ha, hd, hdrawn⟩, ht, hr, hgives⟩ := h e w r w' hi hP hx
  have hl : Later w w' := ⟨fun a h => ha ▸ h, fun d h => hd ▸ h, hdrawn.mono⟩
  refine ⟨⟨hdrawn.owner hi.owner, ?_, ?_, fun t h => (ht t h).later hl, hr hl⟩, fun _ => hl, hgives⟩
  · rw [ha, hd]
    exact hi.identified
  · rw [hd]
    exact fun d h => (hi.linked d h).later hl

theorem exec_sparesAuth (hc : cmd.sparesAuth) {r : Ans cmd} (h : exec c i e w cmd = some (r, w')) :
    (w'.accounts = w.accounts ∧ w'.identities = w.identities ∧ Draws i w w') ∧ w'.tokens = w.tokens := by
  rcases exec_effect h with rfl | ⟨r₀, hx⟩
  · exact ⟨⟨rfl, rfl, .inl rfl⟩, rfl⟩
  · rw [answer_sparesAuth hc hx]
    exact ⟨⟨rfl, rfl, .inl rfl⟩, rfl⟩

theorem does_quiet (hc : cmd.sparesAuth) (htags : Cmd.tags cmd = false) {gives : Ans cmd → World → Prop}
    (hg : ∀ e w r w', Inv c calls w → P w → exec c i e w cmd = some (r, w') → gives r w') :
    Does c calls i cmd P gives := by
  refine does_of_same fun e w r w' hi hP hx => ?_
  obtain ⟨hsame, htokens⟩ := exec_sparesAuth hc hx
  exact ⟨hsame, fun t ht => hi.tokens t (htokens ▸ ht), fun hl => (keeps_exec htags hx).tagged hl hi.records,
    hg e w r w' hi hP hx⟩

theorem does_draw (htags : Cmd.tags cmd = false) (string? : Ans cmd → Except GoErr String)
    (hdraws : ∀ e w r w', exec c i e w cmd = some (r, w') → UserCenter.Draws i w w' (string? r)) :
    Does c calls i cmd P fun r w => ∀ x, string? r = .ok x → (i, x) ∈ w.drawn := by
  refine does_of_same fun e w r w' hi _ hx => ?_
  obtain ⟨ha, hd, ht, -, hdrawn⟩ := hdraws e w r w' hx
  refine ⟨⟨ha, hd, ?_⟩, fun t h => hi.tokens t (ht ▸ h), fun hl => (keeps_exec htags hx).tagged hl hi.records,
    fun _ => (hdraws e w r w' hx).mem⟩
  rcases hdrawn with ⟨_, h⟩ | ⟨x, _, hfresh, h, _⟩
  · exact .inl h
  · exact .inr ⟨x, hfresh, h⟩

theorem does_newUUID : Does c calls i .newUUID P fun r w => ∀ x, r = .ok x → (i, x) ∈ w.drawn :=
  @does_draw c calls i .newUUID P rfl id fun _ _ _ _ hx => exec_newUUID hx

theorem does_readRandom : Does c calls i .readRandom P fun r w => ∀ x, r = .ok x → (i, x) ∈ w.drawn :=
  @does_draw c calls i .readRandom P rfl id fun _ _ _ _ hx => exec_readRandom hx

theorem does_tokens (htags : Cmd.tags cmd = false) (hc : cmd.onTokens)
    (hP : ∀ w t, P w → cmd.token? = some t → HasAccount w t.accountID) : Does c calls i cmd P fun _ _ => True := by
  refine does_of_same fun e w r w' hi hPw hx => ?_
  have hkeeps := fun hl => (keeps_exec htags hx).tagged hl hi.records
  rcases exec_effect hx with rfl | ⟨r₀, hanswer⟩
  · exact ⟨⟨rfl, rfl, .inl rfl⟩, hi.tokens, hkeeps, trivial⟩
  obtain ⟨heq, htokens⟩ := answer_onTokens hc hanswer
  refine ⟨by rw [heq]; exact ⟨rfl, rfl, .inl rfl⟩, fun t ht => ?_, hkeeps, trivial⟩
  rcases htokens t ht with hnew | ⟨t₀, ht₀, hsame⟩
  · exact hP w t hPw hnew
  · rw [hsame]
    exact hi.tokens t₀ ht₀

theorem does_insertToken : Does c calls i (.insertToken t) (HasAccount · t.accountID) fun _ _ => True :=
  does_tokens rfl rfl fun _ _ hP ht => Option.some.inj ht ▸ hP

theorem does_revoke {id : String} {now : Time} : Does c calls i (.revoke id now) P fun _ _ => True :=
  does_tokens rfl rfl nofun

theorem does_rotateTx {id : String} {now : Time} :
    Does c calls i (.rotateTx id now t) (HasAccount · t.accountID) fun _ _ => True :=
  does_tokens rfl rfl fun _ _ hP ht => Option.some.inj ht ▸ hP

theorem does_expireToken {id : String} : Does c calls i (.expireToken id) P fun _ _ => True :=
  does_tokens rfl rfl nofun

theorem does_createAccountTx {a : Account} {d : Identity} (hd : d.accountID = a.id) (ht : t.accountID = a.id) :
    Does c calls i (.createAccountTx a d t) P fun r w => r = .ok () → d ∈ w.identities := by
  intro e w r w' hi _ _ hx
  rcases exec_createAccountTx hx with ⟨⟨err, rfl⟩, rfl⟩ | hok
  · exact ⟨⟨hi.owner, hi.identified, hi.linked, hi.tokens, hi.records⟩, fun _ => ⟨fun _ h => h, fun _ h => h, fun _ h => h⟩,
      fun h => by cases h⟩
  obtain ⟨heq, htokens⟩ := createAccountTx_ok hok
  obtain ⟨haccounts, hfresh, hidentities⟩ := createAccountTx_docs hok
  have hdrawn : w'.drawn = w.drawn := by rw [heq]; rfl
  have hl : Later w w' := ⟨fun x h => (haccounts x).mpr (.inr h), fun x h => (hidentities x).mpr (.inr h), fun x h => hdrawn ▸ h⟩
  have hnew : HasAccount w' a.id := ⟨a, (haccounts a).mpr (.inl rfl), rfl⟩
  -- no identity that was there can belong to the new account
  have hnone : ∀ x ∈ w.identities, x.accountID ≠ a.id := by
    intro x hx heq
    obtain ⟨y, hy, hid⟩ := hi.linked x hx
    exact hfresh y hy (hid.trans heq)
  refine ⟨⟨hdrawn ▸ hi.owner, fun x hx => ?_, fun x hx => ?_, fun x hx => ?_, ?_⟩, fun _ => hl, fun _ =>
    (hidentities d).mpr (.inl rfl)⟩
  · rcases (haccounts x).mp hx with rfl | hx
    · refine ⟨d, (hidentities d).mpr (.inl rfl), hd, fun d' hd' hid => ?_⟩
      rcases (hidentities d').mp hd' with h | h
      · exact h
      · exact absurd hid (hnone d' h)
    · obtain ⟨y, hy, hid, huniq⟩ := hi.identified x hx
      have hne : x.id ≠ a.id := hfresh x hx
      refine ⟨y, hl.identities y hy, hid, fun d' hd' hid' => ?_⟩
      rcases (hidentities d').mp hd' with rfl | h
      · exact absurd (hid'.symm.trans hd) hne
      · exact huniq d' h hid'
  · rcases (hidentities x).mp hx with rfl | hx
    · exact hd ▸ hnew
    · exact (hi.linked x hx).later hl
  · rcases (htokens x).mp hx with rfl | hx
    · exact ht ▸ hnew
    · exact (hi.tokens x hx).later hl
  · exact (keeps_exec rfl hx).tagged hl hi.records

theorem does_findIdentity :
    Does c calls i (.findIdentity provider subject) P fun r w => ∀ d, r = .ok d → d ∈ w.identities ∧ d.provider = provider ∧
      d.subject = subject ∧ HasAccount w d.accountID := by
  refine does_quiet rfl rfl fun e w r w' hi _ hx d hr => ?_
  obtain ⟨rfl, hok⟩ := exec_findIdentity hx
  obtain ⟨hd, hprovider, hsubject⟩ := findIdentity_ok (hok d hr)
  exact ⟨hd, hprovider, hsubject, hi.linked d hd⟩

theorem does_findValid {tokenHash : String} {now : Time} :
    Does c calls i (.findValid tokenHash now) P fun r w => ∀ t, r = .ok t → HasAccount w t.accountID := by
  refine does_quiet rfl rfl fun e w r w' hi _ hx t hr => ?_
  obtain ⟨rfl, hok⟩ := exec_findValid hx
  exact hi.tokens t (findValid_ok (hok t hr)).1

theorem does_generateFromPassword {password : String} :
    Does c calls i (.generateFromPassword password) P fun r _ => ∀ hash, r = .ok hash →
      hash ≠ "" ∧ c.compareHashAndPassword hash password = true := by
  refine does_quiet rfl rfl fun e w r w' hi _ hx hash hr => ?_
  cases hr
  exact exec_generateFromPassword hx

/-! ## The cores -/

section
variable {α : Type} {post : World → α → Prop}

theorem sound_call {gives : Ans cmd → World → Prop} {k : Ans cmd → Prog Ans α}
    (h : Does c calls i cmd (fun _ => True) gives)
    (hk : ∀ r w', Later w w' → gives r w' → Sound c calls i post (k r) w') : Sound c calls i post (.call cmd k) w :=
  h.call (fun _ _ _ => Later.trans) (fun _ _ _ _ => trivial) trivial hk

theorem sound_quiet {k : Ans cmd → Prog Ans α} (hc : cmd.sparesAuth) (htags : Cmd.tags cmd = false)
    (hk : ∀ r w', Later w w' → Sound c calls i post (k r) w') : Sound c calls i post (.call cmd k) w := by
  have h : Does c calls i cmd (fun _ => True) fun _ _ => True := does_quiet hc htags fun _ _ _ _ _ _ _ => trivial
  exact sound_call h fun r w' hl _ => hk r w' hl

end

theorem Sound.later {α : Type} {post : World → α → Prop} {prog : Prog Ans α} (h : Sound c calls i post prog w) :
    Sound c calls i (fun w' a => Later w w' ∧ post w' a) prog w :=
  Pool.Safe.later Later.refl (fun _ _ _ => Later.trans) h

theorem sound_newToken (accountID installID : String) :
    Sound c calls i (fun _ r => ∀ made, r = .ok made → made.1.accountID = accountID) (newToken c accountID installID) w := by
  unfold newToken
  split
  · intro _ h
    cases h
  simp only [perform, Prog.perform_bind, Prog.pure_eq]
  refine sound_call does_newUUID fun r w _ _ => ?_
  cases r with
  | error err =>
    intro _ h
    cases h
  | ok tokenID =>
    refine sound_call does_readRandom fun r w _ _ => ?_
    cases r with
    | error err =>
      intro _ h
      cases h
    | ok raw =>
      refine sound_quiet rfl rfl fun now w _ made h => ?_
      cases h
      rfl

theorem sound_createToken (haccount : HasAccount w t.accountID) :
    Sound c calls i (fun _ _ => True) (createToken t) w := by
  unfold createToken
  simp only [perform, Prog.perform_bind]
  refine sound_quiet rfl rfl fun now w' hl => ?_
  split
  · trivial
  · rename_i document hdocument
    rw [refreshTokenDocumentFromDomain_ok hdocument]
    exact does_insertToken.call (fun _ _ _ => Later.trans) (fun _ _ h hl => h.later hl) (haccount.later hl)
      fun _ _ _ _ => trivial

theorem sound_issueToken {accountID : String} (installID : String) (haccount : HasAccount w accountID) :
    Sound c calls i (fun _ _ => True) (issueToken c accountID installID) w := by
  refine Pool.Safe.bind ((sound_newToken accountID installID).later.mono fun w' r hr => ?_)
  cases r with
  | error err => trivial
  | ok made =>
    have haccount : HasAccount w' made.1.accountID := (hr.2 _ rfl) ▸ haccount.later hr.1
    refine Pool.Safe.bind ((sound_createToken haccount).mono fun _ r _ => ?_)
    cases r <;> trivial

theorem sound_hashPassword (password : String) :
    Sound c calls i (fun _ r => ∀ hash, r = .ok hash → password ≠ "" →
      hash ≠ "" ∧ c.compareHashAndPassword hash password = true) (hashPassword password) w := by
  unfold hashPassword
  split
  · rename_i h
    exact fun _ _ hne => absurd h hne
  simp only [perform, Prog.perform_bind, Prog.pure_eq]
  refine sound_call does_generateFromPassword fun r _ _ hr => ?_
  cases r with
  | error err =>
    intro _ h
    cases h
  | ok hash =>
    intro hash' h _
    cases h
    exact hr hash rfl

def CreatedFor (c : DomainAuthComponent) (i : Nat) (provider : AuthProvider) (subject password accountID : String)
    (w : World) : Prop :=
  (i, accountID) ∈ w.drawn ∧ ∃ d ∈ w.identities, d.provider = provider ∧ d.subject = subject ∧ d.accountID = accountID ∧
    (password ≠ "" → d.passwordHash ≠ "" ∧ c.compareHashAndPassword d.passwordHash password = true)

theorem sound_createAccountAndToken (provider : AuthProvider) (subject password installID : String) :
    Sound c calls i (fun w r => ∀ made, r = .ok made → CreatedFor c i provider subject password made.1 w)
      (createAccountAndToken c provider subject password installID) w := by
  unfold createAccountAndToken
  simp only [perform, Prog.perform_bind]
  refine sound_call does_newUUID fun r w hl hdrawn => ?_
  cases r with
  | error err =>
    intro _ h
    cases h
  | ok accountID =>
    have hdrawn := hdrawn accountID rfl
    refine sound_call does_newUUID fun r w hl _ => ?_
    have hdrawn := hl.drawn _ hdrawn
    cases r with
    | error err =>
      intro _ h
      cases h
    | ok identityID =>
      refine Pool.Safe.bind ((sound_hashPassword password).later.mono fun w r hr => ?_)
      have hdrawn := hr.1.drawn _ hdrawn
      cases r with
      | error err =>
        intro _ h
        cases h
      | ok passwordHash =>
        have hhash := hr.2 passwordHash rfl
        refine sound_quiet rfl rfl fun now w hl => ?_
        have hdrawn := hl.drawn _ hdrawn
        refine Pool.Safe.bind ((sound_newToken accountID installID).later.mono fun w r hr => ?_)
        have hdrawn := hr.1.drawn _ hdrawn
        cases r with
        | error err =>
          intro _ h
          cases h
        | ok made =>
          refine sound_call (does_createAccountTx rfl (hr.2 _ rfl)) fun r w hl hstored => ?_
          have hdrawn := hl.drawn _ hdrawn
          cases r with
          | error err =>
            intro _ h
            cases h
          | ok u =>
            intro made' h
            cases h
            exact ⟨hdrawn, _, hstored rfl, rfl, rfl, rfl, hhash⟩

def Admits (c : DomainAuthComponent) (i : Nat) (provider : AuthProvider) (subject : String) (password : Option String)
    (w : World) (r : Except GoErr MessageResult) : Prop :=
  ∀ res, r = .ok res → GrantedTo c w provider subject password res.message ∧
    ∀ g, res.message = .guest g true → (i, g.accountID) ∈ w.drawn

theorem admits_error {password : Option String} {err : GoErr} :
    Admits c i provider subject password w (.error err) := fun _ h => by cases h

section
variable {d : Identity} {provider : AuthProvider} {subject : String} (hd : d ∈ w.identities) (hprovider : d.provider = provider)
  (hsubject : d.subject = subject) (haccount : HasAccount w d.accountID)
include hd hprovider hsubject haccount

theorem sound_guestLogin (installID : String) :
    Sound c calls i (Admits c i provider subject none) (guestLogin c d installID) w := by
  refine Pool.Safe.bind ((sound_issueToken installID haccount).later.mono fun w' r hr => ?_)
  cases r with
  | error err => exact admits_error
  | ok made =>
    intro res h
    cases h
    exact ⟨⟨_, rfl, d, hr.1.identities d hd, hprovider, hsubject, rfl, fun _ h => by cases h⟩, fun _ h => by cases h⟩

theorem sound_passwordLogin (password installID : String) :
    Sound c calls i (Admits c i provider subject (some password)) (passwordLogin c d password installID) w := by
  unfold passwordLogin
  split
  · exact admits_error
  rename_i hverifies
  obtain ⟨hhash, hcompare⟩ := not_or.mp hverifies
  refine Pool.Safe.bind ((sound_issueToken installID haccount).later.mono fun w' r hr => ?_)
  cases r with
  | error err => exact admits_error
  | ok made =>
    intro res h
    cases h
    refine ⟨⟨_, rfl, d, hr.1.identities d hd, hprovider, hsubject, rfl, fun p h => ?_⟩, fun _ h => by cases h⟩
    cases h
    exact ⟨hhash, not_not.mp hcompare⟩

end

theorem sound_guestAuthenticateCore (request : GuestAuthenticateRequest) :
    Sound c calls i (Admits c i .guest (trimSpace request.installID) none) (guestAuthenticateCore c request) w := by
  unfold guestAuthenticateCore
  simp only [perform, Prog.perform_bind]
  refine sound_call does_findIdentity fun r w _ hr => ?_
  cases r with
  | ok d =>
    obtain ⟨hd, hprovider, hsubject, haccount⟩ := hr d rfl
    exact sound_guestLogin hd hprovider hsubject haccount _
  | error err =>
    dsimp only
    split
    · exact admits_error
    refine Pool.Safe.bind ((sound_createAccountAndToken _ _ _ _).mono fun w r hr => ?_)
    cases r with
    | ok made =>
      intro res h
      cases h
      obtain ⟨hdrawn, d, hd, hprovider, hsubject, haccount, _⟩ := hr made rfl
      refine ⟨⟨_, rfl, d, hd, hprovider, hsubject, haccount, fun _ h => by cases h⟩, fun g h => ?_⟩
      cases h
      exact hdrawn
    | error createErr =>
      refine sound_call does_findIdentity fun r w _ hr => ?_
      cases r with
      | error err => exact admits_error
      | ok d =>
        obtain ⟨hd, hprovider, hsubject, haccount⟩ := hr d rfl
        exact sound_guestLogin hd hprovider hsubject haccount _

theorem sound_passwordAuthenticateCore (request : PasswordAuthenticateRequest) :
    Sound c calls i (Admits c i .password (trimSpace request.username) (some request.password))
      (passwordAuthenticateCore c request) w := by
  unfold passwordAuthenticateCore
  dsimp only
  split
  · exact admits_error
  rename_i haccepts
  simp only [perform, Prog.perform_bind, Prog.pure_eq]
  refine sound_call does_findIdentity fun r w _ hr => ?_
  cases r with
  | ok d =>
    obtain ⟨hd, hprovider, hsubject, haccount⟩ := hr d rfl
    exact sound_passwordLogin hd hprovider hsubject haccount _ _
  | error err =>
    dsimp only
    split
    · exact admits_error
    refine Pool.Safe.bind ((sound_createAccountAndToken _ _ _ _).mono fun w r hr => ?_)
    cases r with
    | ok made =>
      intro res h
      cases h
      obtain ⟨_, d, hd, hprovider, hsubject, haccount, hhash⟩ := hr made rfl
      refine ⟨⟨_, rfl, d, hd, hprovider, hsubject, haccount, fun p h => ?_⟩, fun g h => by cases h⟩
      cases h
      -- an empty password has been refused above
      refine hhash fun hempty => haccepts ?_
      simp [acceptsCredentials, hempty]
    | error createErr =>
      refine sound_call does_findIdentity fun r w _ hr => ?_
      cases r with
      | error err => exact admits_error
      | ok d =>
        obtain ⟨hd, hprovider, hsubject, haccount⟩ := hr d rfl
        exact sound_passwordLogin hd hprovider hsubject haccount _ _

theorem sound_rotate {id : String} {now : Time} (haccount : HasAccount w t.accountID) :
    Sound c calls i (fun _ _ => True) (rotate id now t) w := by
  unfold rotate
  split
  · trivial
  simp only [perform, Prog.perform_bind, Prog.pure_eq]
  refine sound_quiet rfl rfl fun today w' hl => ?_
  split
  · trivial
  · rename_i document hdocument
    rw [refreshTokenDocumentFromDomain_ok hdocument]
    exact does_rotateTx.call (fun _ _ _ => Later.trans) (fun _ _ h hl => h.later hl) (haccount.later hl)
      fun _ _ _ _ => trivial

theorem sound_refreshAuthenticateCore (request : RefreshAuthenticateRequest) :
    Sound c calls i (fun _ r => ∀ res, r = .ok res → ∃ g, res.message = .refresh g) (refreshAuthenticateCore c request) w := by
  unfold refreshAuthenticateCore
  simp only [perform, Prog.perform_bind]
  refine sound_quiet rfl rfl fun now w _ => sound_call does_findValid fun r w _ hr => ?_
  cases r with
  | error err =>
    intro _ h
    cases h
  | ok old =>
    dsimp only
    split
    · intro _ h
      cases h
    refine Pool.Safe.bind ((sound_newToken old.accountID request.installID).later.mono fun w r hmade => ?_)
    cases r with
    | error err =>
      intro _ h
      cases h
    | ok made =>
      have haccount : HasAccount w made.1.accountID := (hmade.2 _ rfl) ▸ (hr old rfl).later hmade.1
      refine Pool.Safe.bind ((sound_rotate haccount).mono fun _ r _ => ?_)
      cases r with
      | error err =>
        intro _ h
        cases h
      | ok u =>
        intro res h
        cases h
        exact ⟨_, rfl⟩

theorem sound_revokeRefreshTokenCore (request : RevokeRefreshTokenRequest) :
    Sound c calls i (fun _ r => ∀ res, r = .ok res → res.message = .revoke) (revokeRefreshTokenCore c request) w := by
  unfold revokeRefreshTokenCore
  simp only [perform, Prog.perform_bind]
  refine sound_quiet rfl rfl fun now w _ => sound_quiet rfl rfl fun r w _ => ?_
  cases r with
  | error err =>
    intro _ h
    cases h
  | ok old =>
    dsimp only
    split
    · intro _ h
      cases h
    refine sound_quiet rfl rfl fun now w _ => sound_call does_revoke fun r _ _ _ => ?_
    cases r with
    | error err =>
      intro _ h
      cases h
    | ok u =>
      intro res h
      cases h
      rfl

def Answers (c : DomainAuthComponent) (i : Nat) (request : Request) (w : World) (r : Except GoErr MessageResult) : Prop :=
  ∀ res, r = .ok res → Grants c w request res.message ∧ ∀ g, res.message = .guest g true → (i, g.accountID) ∈ w.drawn

theorem answers_error {request : Request} {err : GoErr} : Answers c i request w (.error err) := fun _ h => by cases h

theorem Admits.answers {request : Request} {r : Except GoErr MessageResult}
    (h : Admits c i provider subject request.password? w r) (hlogin : request.login = some (provider, subject)) :
    Answers c i request w r := by
  intro res hr
  refine ⟨fun provider' subject' hlogin' => ?_, (h res hr).2⟩
  cases hlogin.symm.trans hlogin'
  exact (h res hr).1

theorem Admits.client {request : LoginRequest} {res : MessageResult}
    (h : Admits c i provider subject (Request.clientLogin request).password? w (.ok res))
    (hlogin : (Request.clientLogin request).login = some (provider, subject)) :
    Answers c i (.clientLogin request) w (.ok (clientLoginGrant res)) := by
  intro res' hr
  cases hr
  refine ⟨fun provider' subject' hlogin' => ?_, fun _ h => by cases h⟩
  cases hlogin.symm.trans hlogin'
  exact (h res rfl).1

theorem sound_clientLoginAuthenticateCore (request : LoginRequest) :
    Sound c calls i (Answers c i (.clientLogin request)) (clientLoginAuthenticateCore c request) w := by
  unfold clientLoginAuthenticateCore
  split
  · rename_i hprovider
    have hlogin : (Request.clientLogin request).login = some (.guest, trimSpace request.installID) := by
      simp only [Request.login, hprovider]
    have hpassword : (Request.clientLogin request).password? = none := by
      simp only [Request.password?, hprovider]
    refine Pool.Safe.bind ((sound_guestAuthenticateCore _).mono fun w r hr => ?_)
    cases r with
    | error err => exact answers_error
    | ok res => exact Admits.client (hpassword ▸ hr) hlogin
  · rename_i hprovider
    have hlogin : (Request.clientLogin request).login = some (.password, trimSpace request.username) := by
      simp only [Request.login, hprovider]
    have hpassword : (Request.clientLogin request).password? = some request.password := by
      simp only [Request.password?, hprovider]
    refine Pool.Safe.bind ((sound_passwordAuthenticateCore _).mono fun w r hr => ?_)
    cases r with
    | error err => exact answers_error
    | ok res => exact Admits.client (hpassword ▸ hr) hlogin
  · exact answers_error

theorem sound_core (request : Request) : Sound c calls i (Answers c i request) (request.core c) w := by
  cases request with
  | guest r => exact (sound_guestAuthenticateCore r).mono fun w res h => h.answers rfl
  | password r => exact (sound_passwordAuthenticateCore r).mono fun w res h => h.answers rfl
  | clientLogin r => exact sound_clientLoginAuthenticateCore r
  | refresh r =>
    refine (sound_refreshAuthenticateCore r).mono fun w res h result hr => ⟨fun _ _ h => (by cases h), fun g hg => ?_⟩
    obtain ⟨g', hg'⟩ := h result hr
    cases hg.symm.trans hg'
  | revoke r =>
    refine (sound_revokeRefreshTokenCore r).mono fun w res h result hr => ⟨fun _ _ h => (by cases h), fun g hg => ?_⟩
    cases hg.symm.trans (h result hr)
  | clientRefresh r =>
    refine Pool.Safe.bind ((sound_refreshAuthenticateCore _).mono fun w res _ => ?_)
    cases res with
    | error err => exact answers_error
    | ok res =>
      intro result hr
      cases hr
      exact ⟨fun _ _ h => (by cases h), fun _ h => by cases h⟩

/-! ## Runs -/

theorem sound_handler {Q : Request → World → Except GoErr MessageResult → Prop} {call : Call}
    (hrequest : ∀ site request w, call.request = some request → Sound c calls i (Q request)
      (withIdempotency c site request.idempotencyKey request.operation request (request.core c)) w) :
    Sound c calls i (fun w r => ∀ request res, call.request = some request → r = some (.ok res) → Q request w (.ok res))
      (call.handler c) w := by
  refine safe_handler (fun site request hreq => hrequest site request w hreq) ?_ (fun id => ?_) fun key => ?_
  · simp only [Call.handler, perform, Prog.perform_bind]
    exact sound_quiet rfl rfl fun _ w _ => sound_quiet rfl rfl fun _ w _ => trivial
  · simp only [Call.handler, perform, Prog.perform_bind]
    exact sound_call does_expireToken fun _ w _ _ => trivial
  · simp only [Call.handler, perform, Prog.perform_bind]
    exact sound_quiet rfl rfl fun _ w _ => trivial

theorem inv_init (clock : Time) : Inv c calls (World.init clock) :=
  ⟨fun _ _ _ h => (by cases h), fun a ha => absurd ha (Coll.not_mem_empty a), fun d hd => absurd hd (Coll.not_mem_empty d),
    fun t ht => absurd ht (Coll.not_mem_empty t), fun r hr => absurd hr (Coll.not_mem_empty r)⟩

theorem good_run (c : DomainAuthComponent) (calls : List Call) (post : Nat → World → Reply → Prop)
    (hsound : ∀ i call w, calls[i]? = some call → Sound c calls i (post i) (call.handler c) w) (clock : Time)
    (sched : List (Nat × Env)) :
    Pool.Good (exec c) (fun _ _ _ _ => True) (Inv c calls) (fun _ => Later) post
      (Pool.run (exec c) (State.init c (.init clock) calls) sched) := by
  have hstart := Pool.good_start (fun _ => Later.refl) (inv_init clock) (Pool.forall_map fun i call => hsound i call _)
  exact Pool.safe_run (fun _ => Later.refl) (fun _ _ _ _ => Later.trans) hstart (Pool.along_any _ sched)

theorem Answers.later {request : Request} {r : Except GoErr MessageResult} (h : Answers c i request w r)
    (hl : Later w w') : Answers c i request w' r :=
  fun res hr => ⟨Grants.later (h res hr).1 hl, fun g hg => hl.drawn _ ((h res hr).2 g hg)⟩

theorem identity_eq {d d' : Identity} (hd : d ∈ w.identities) (hd' : d' ∈ w.identities) (hprovider : d.provider = d'.provider)
    (hsubject : d.subject = d'.subject) : d = d' :=
  Coll.eq_of_clash hd hd' (by simp [identityIndexes, hprovider, hsubject])

theorem Grants.accountID_eq {request request' : Request} {m m' : Message} (h : Grants c w request m)
    (h' : Grants c w request' m') (hlogin : request.login = some (provider, subject))
    (hlogin' : request'.login = some (provider, subject)) :
    ∃ g g', m.grant? = some g ∧ m'.grant? = some g' ∧ g.accountID = g'.accountID := by
  obtain ⟨g, hg, d, hd, hprovider, hsubject, haccount, -⟩ := h provider subject hlogin
  obtain ⟨g', hg', d', hd', hprovider', hsubject', haccount', -⟩ := h' provider subject hlogin'
  have heq := identity_eq hd hd' (hprovider.trans hprovider'.symm) (hsubject.trans hsubject'.symm)
  exact ⟨g, g', hg, hg', by rw [← haccount, ← haccount', heq]⟩

end Login

open Login in
/-- Logins without idempotency keys, and any other calls without them, in any
interleaving and with any failures. -/
theorem logins_agree (c : DomainAuthComponent) (calls : List Call) (hcalls : ∀ call ∈ calls, call.Keyless) (clock : Time)
    (sched : List (Nat × Env)) :
    let s := Pool.run (exec c) (State.init c (.init clock) calls) sched
    (∀ i j request request' res res' provider subject, Succeeded calls s i request res → Succeeded calls s j request' res' →
      request.login = some (provider, subject) → request'.login = some (provider, subject) →
        (∃ g g', res.message.grant? = some g ∧ res'.message.grant? = some g' ∧ g.accountID = g'.accountID) ∧
        ∀ g g', res.message = .guest g true → res'.message = .guest g' true → i = j) ∧
    (∀ a ∈ s.world.accounts, ∃ d ∈ s.world.identities, d.accountID = a.id ∧
      ∀ d' ∈ s.world.identities, d'.accountID = a.id → d' = d) ∧
    (∀ d ∈ s.world.identities, ∃ a ∈ s.world.accounts, a.id = d.accountID) ∧
    ∀ t ∈ s.world.tokens, ∃ a ∈ s.world.accounts, a.id = t.accountID := by
  intro s
  let post : Nat → World → Reply → Prop := fun i w r => ∀ call request res, calls[i]? = some call →
    call.request = some request → r = some (.ok res) → Answers c i request w (.ok res)
  have hgood := good_run c calls post (fun i call w hcall => ?_) clock sched
  · have hsucc : ∀ i request res, Succeeded calls s i request res → Answers c i request s.world (.ok res) := by
      rintro i request res ⟨⟨site, payload, hcall, hreq⟩, hans⟩
      obtain ⟨w, hw, hl⟩ := hgood.ret i _ (Pool.answer_eq_some hans)
      exact (hw _ request res hcall hreq rfl).later hl
    refine ⟨fun i j request request' res res' provider subject h h' hlogin hlogin' => ?_, hgood.world.identified,
      hgood.world.linked, hgood.world.tokens⟩
    obtain ⟨hgrants, hcreated⟩ := hsucc i request res h res rfl
    obtain ⟨hgrants', hcreated'⟩ := hsucc j request' res' h' res' rfl
    obtain ⟨g, g', hg, hg', haccount⟩ := Grants.accountID_eq hgrants hgrants' hlogin hlogin'
    refine ⟨⟨g, g', hg, hg', haccount⟩, fun g₁ g₂ hm hm' => ?_⟩
    -- both have drawn the id of the one account
    have h₁ := hcreated g₁ hm
    have h₂ := hcreated' g₂ hm'
    rw [hm] at hg
    rw [hm'] at hg'
    cases hg
    cases hg'
    rw [← haccount] at h₂
    exact hgood.world.owner i j _ h₁ h₂
  · refine (sound_handler (Q := fun request w r => Answers c i request w r) fun site request w hreq => ?_).mono
      fun w r h call' request res hcall' hreq hr => ?_
    · have hkey := hcalls call (List.mem_of_getElem? hcall)
      cases call with
      | serve site' payload =>
        rw [withIdempotency, if_pos (hkey request hreq)]
        exact sound_core request
      | start | expireToken _ | expireRecord _ => cases hreq
    · cases hcall.symm.trans hcall'
      exact h request res hreq hr

def racingLogins : List Call :=
  [.serve {} (.guestAuthenticate (some { installID := "phone" })),
    .serve {} (.guestAuthenticate (some { installID := " phone" }))]

def bothMissIt : List (Nat × Env) :=
  drawing [(0, ""), (1, ""), (0, "account"), (0, "identity"), (0, ""), (0, "token"), (0, "raw"), (0, ""), (0, ""),
    (1, "account1"), (1, "identity1"), (1, ""), (1, "token1"), (1, "raw1"), (1, ""), (1, ""), (1, ""), (1, "token2"),
    (1, "raw2"), (1, ""), (1, ""), (1, "")]

theorem logins_agree_in_race :
    let s := Pool.run (exec plainComponent) (State.init plainComponent (.init 5) racingLogins) bothMissIt
    s.answer 0 = some (some (.ok ⟨guestAuthenticateResponse, .guest ⟨"account", "raw", 1⟩ true⟩)) ∧
      s.answer 1 = some (some (.ok ⟨guestAuthenticateResponse, .guest ⟨"account", "raw2", 1⟩ false⟩)) ∧
      ∀ t ∈ s.world.tokens, ∃ a ∈ s.world.accounts, a.id = t.accountID := by
  have hcalls : ∀ call ∈ racingLogins, call.Keyless := by
    intro call hcall
    simp only [racingLogins, List.mem_cons, List.not_mem_nil, or_false] at hcall
    rcases hcall with rfl | rfl <;> rintro request ⟨⟩ <;> decide
  exact ⟨by decide, by decide, (logins_agree plainComponent racingLogins hcalls 5 bothMissIt).2.2.2⟩

end GameServer.UserCenter
