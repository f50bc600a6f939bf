import GameServer.DrawnIds
import GameServer.Recovery
import Mathlib.Data.List.TakeWhile

/-!
# The user center: the credentials that work

A user name and a password that pass the length checks and are new are
registered, and from then on the same password gets the same account and another
one an error, whatever has happened in between. The checks are in bytes and let
passwords of up to 128 pass, of which bcrypt hashes those of up to 72.
-/

namespace GameServer.UserCenter

/-- What is assumed of bcrypt for a password of at most 72 bytes: it is hashed,
and what is then verified is this password only. -/
structure Bcrypt (c : DomainAuthComponent) (password : String) : Prop where
  hashes : password ≠ "" → password.utf8ByteSize ≤ 72 → ∃ hash, hash ≠ "" ∧ c.compareHashAndPassword hash password = true
  exact : password.utf8ByteSize ≤ 72 → ∀ hash p', c.compareHashAndPassword hash password = true →
    c.compareHashAndPassword hash p' = true → p' = password

def GrantsAccount (accountID : String) (r : Except GoErr MessageResult) : Prop :=
  ∃ g : AuthenticationGrant, r = .ok ⟨passwordAuthenticateResponse, .password g⟩ ∧ g.accountID = accountID

/-- A call with the user name, by itself, is granted the account if it has the
password, and fails if it has another. It ends before `T`, and before the token
it would issue expires. -/
structure Recognises (c : DomainAuthComponent) (username password accountID : String) (w : World) : Prop where
  same : ∀ i T (request : PasswordAuthenticateRequest), trimSpace request.username = username → request.password = password →
    trimSpace request.installID ≠ "" → w.clock < T → T ≤ w.clock + c.refreshTokenTTL →
      Pool.Total (exec c) (Healthy T) Eq i (fun _ r => GrantsAccount accountID r) (passwordAuthenticateCore c request) w
  differs : ∀ i T (request : PasswordAuthenticateRequest), trimSpace request.username = username → request.password ≠ password →
    w.clock < T →
      Pool.Total (exec c) (Healthy T) Eq i (fun _ r => ∃ err, r = .error err) (passwordAuthenticateCore c request) w

/-- The call by itself registers a new account, and after any calls that may
follow the user name and the password are recognised. -/
def Registers (c : DomainAuthComponent) (T : Time) (i : Nat) (request : PasswordAuthenticateRequest) (w : World) : Prop :=
  Pool.Total (exec c) (Healthy T) Eq i (fun w' r => ∃ accountID, GrantsAccount accountID r ∧
      (∀ a ∈ w.accounts, a.id ≠ accountID) ∧ (∃ a ∈ w'.accounts, a.id = accountID) ∧
      ∀ calls sched, Recognises c (trimSpace request.username) request.password accountID
        (Pool.run (exec c) (State.init c w' calls) sched).world)
    (passwordAuthenticateCore c request) w

theorem trimSpace_eq_empty {s : String} : trimSpace s = "" ↔ ∀ x ∈ s.toList, isSpace x = true := by
  have hempty : trimSpace s = "" ↔ ((s.toList.dropWhile isSpace).reverse.dropWhile isSpace).reverse = [] := by
    rw [trimSpace, ← String.toList_inj]
    simp
  rw [hempty, List.reverse_eq_nil_iff, List.dropWhile_eq_nil_iff]
  refine ⟨fun h x hx => ?_, fun h x hx => h x (List.dropWhile_subset _ (List.mem_reverse.mp hx))⟩
  rw [← List.takeWhile_append_dropWhile (p := isSpace) (l := s.toList)] at hx
  rcases List.mem_append.mp hx with hx | hx
  · exact List.mem_takeWhile_imp hx
  · exact h x (List.mem_reverse.mpr hx)

theorem trimSpace_ne_empty {s : String} (h : trimSpace s ≠ "") : trimSpace (trimSpace s) ≠ "" := by
  intro hblank
  rw [trimSpace_eq_empty] at hblank
  have hlist : (s.toList.dropWhile isSpace).reverse.dropWhile isSpace ≠ [] := by
    intro hnil
    apply h
    rw [trimSpace, hnil]
    rfl
  -- the last character that is left is not a space
  have hlast := List.head_dropWhile_not isSpace hlist
  rw [hblank _ (by rw [trimSpace, String.toList_ofList, List.mem_reverse]; exact List.head_mem hlist)] at hlast
  cases hlast

attribute [local irreducible] trimSpace

namespace Registration

variable {c : DomainAuthComponent} {i : Nat} {e : Env} {w w' w₀ : World} {cmd : Cmd} {T : Time} {α : Type}
  {post : World → α → Prop}

/-! ## A call by itself -/

structure Prepared (T : Time) (w₀ w : World) : Prop where
  same : SameAuth w₀ w
  drawn : Sourced.Grows w₀ w
  start : w₀.clock ≤ w.clock
  before : w.clock < T

theorem Prepared.refl (h : w.clock < T) : Prepared T w w := ⟨⟨rfl, rfl, rfl⟩, Sourced.Grows.refl w, Nat.le_refl _, h⟩

theorem alone_step {k : Ans cmd → Prog Ans α} (hc : cmd.sparesAuth) (h : Prepared T w₀ w)
    (hcan : ∃ e r w', e.fail = none ∧ e.delay = 0 ∧ w.answer c i cmd e = some (r, w'))
    (hk : ∀ e r w', Prepared T w₀ w' → (w.tick e.delay).answer c i cmd e = some (r, w') →
      Recovery.Total c T Eq i post (k r) w') : Recovery.Total c T Eq i post (.call cmd k) w := by
  refine Recovery.alone_call h.before hcan fun e r w' hT hx => hk e r w' ?_ hx
  have hsame := answer_sparesAuth hc hx
  refine ⟨h.same.answer hc hx, ?_, ?_, ?_⟩ <;> rw [hsame]
  · exact h.drawn
  · exact Nat.le_trans h.start (Nat.le_add_right ..)
  · exact hT

theorem prepared_draw (h : Prepared T w₀ w) {delay : Nat} (hT : w.clock + delay < T) {id : String} {r : Except GoErr String}
    (hx : (w.tick delay).draw i id = some (r, w')) :
    r = .ok id ∧ id ≠ "" ∧ (∀ x ∈ w₀.drawn, x.2 ≠ id) ∧ Prepared T w₀ w' := by
  obtain ⟨hr, hid, hfresh, rfl⟩ := draw_cases hx
  refine ⟨hr, hid, fun x hx => hfresh x (h.drawn x hx), ⟨h.same.accounts, h.same.identities, h.same.tokens⟩,
    fun x hx => List.mem_cons_of_mem _ (h.drawn x hx), Nat.le_trans h.start (Nat.le_add_right ..), hT⟩

section
variable {k : Except GoErr String → Prog Ans α} (h : Prepared T w₀ w)
  (hk : ∀ w' id, Prepared T w₀ w' → id ≠ "" → (∀ x ∈ w₀.drawn, x.2 ≠ id) → Recovery.Total c T Eq i post (k (.ok id)) w')
include h hk

theorem total_drawn (e : Env) (r : Except GoErr String) (w' : World) (hT : w.clock + e.delay < T)
    (hx : (w.tick e.delay).draw i e.id = some (r, w')) : Recovery.Total c T Eq i post (k r) w' := by
  obtain ⟨rfl, hid, hfresh, h'⟩ := prepared_draw h hT hx
  exact hk w' e.id h' hid hfresh

theorem alone_newUUID : Recovery.Total c T Eq i post (.call .newUUID k) w :=
  Recovery.alone_call h.before (Recovery.draw_fresh w i) (total_drawn h hk)

theorem alone_readRandom : Recovery.Total c T Eq i post (.call .readRandom k) w :=
  Recovery.alone_call h.before (Recovery.draw_fresh w i) (total_drawn h hk)

end

section
variable (hc : c.Lawful) (hsourced : Sourced c w₀) (htoken : T ≤ w₀.clock + c.refreshTokenTTL)
include hc hsourced htoken

theorem total_newToken {accountID installID : String} (haccount : accountID ≠ "") (hinstall : trimSpace installID ≠ "")
    (h : Prepared T w₀ w) :
    Recovery.Total c T Eq i (fun w' r => ∃ made, r = .ok made ∧ Prepared T w₀ w' ∧ made.1.accountID = accountID ∧
      Recovery.Storable c T made.1 w₀) (newToken c accountID (trimSpace installID)) w := by
  have httl : c.refreshTokenTTL ≠ 0 := by
    intro hzero
    rw [hzero] at htoken
    exact absurd (Nat.lt_of_lt_of_le h.before htoken) (Nat.not_lt.mpr h.start)
  unfold newToken
  rw [if_neg (not_or.mpr ⟨haccount, not_or.mpr ⟨hinstall, httl⟩⟩)]
  simp only [perform, Prog.perform_bind, Prog.pure_eq]
  refine alone_newUUID h fun w₁ id h₁ _ hid => ?_
  refine alone_readRandom h₁ fun w₂ raw h₂ hne hraw => ?_
  refine alone_step rfl h₂ ⟨{}, _, _, rfl, rfl, rfl⟩ fun e now w₃ h₃ hx => ?_
  cases hx
  refine ⟨_, rfl, h₃, rfl, fun now hnow => ?_, fun x hx => ⟨fun heq => ?_, fun heq => ?_⟩⟩
  · have hlater : now < (w₂.tick e.delay).clock + c.refreshTokenTTL :=
      Nat.lt_of_lt_of_le hnow (Nat.le_trans htoken (Nat.add_le_add_right h₃.start _))
    have hexpires : (w₂.tick e.delay).clock + c.refreshTokenTTL ≠ 0 := Nat.ne_of_gt (Nat.zero_lt_of_lt hlater)
    exact (if_neg (not_or.mpr ⟨haccount, not_or.mpr ⟨hc.hash _ hne, not_or.mpr ⟨trimSpace_ne_empty hinstall, hexpires⟩⟩⟩)).trans
      (if_neg fun h => h.2 hlater)
  · obtain ⟨⟨j, hj⟩, -⟩ := hsourced.tokens x hx
    exact hid _ hj heq
  · obtain ⟨-, j, raw', hraw', hhash⟩ := hsourced.tokens x hx
    exact hraw _ hraw' (hc.injective (hhash.symm.trans heq))

theorem total_issueToken {accountID installID : String} (haccount : accountID ≠ "") (hinstall : trimSpace installID ≠ "")
    (h : Prepared T w₀ w) :
    Recovery.Total c T Eq i (fun _ r => ∃ made, r = .ok made) (issueToken c accountID (trimSpace installID)) w := by
  refine Pool.Total.bind ((total_newToken hc hsourced htoken haccount hinstall h).mono ?_)
  rintro w₁ _ ⟨made, rfl, h₁, -, hmade⟩
  simp only [createToken, perform, Prog.perform_bind]
  refine Pool.Total.bind (alone_step rfl h₁ ⟨{}, _, _, rfl, rfl, rfl⟩ fun e now w₂ h₂ hx => ?_)
  obtain rfl : now = w₂.clock := by
    cases hx
    rfl
  simp only [hmade.valid _ h₂.before]
  refine Recovery.alone_call h₂.before ⟨{}, _, _, rfl, rfl, rfl⟩ fun e r w₃ hT hx => ?_
  obtain ⟨tokens, hins⟩ := Coll.insertOne_isSome (d := made.1) (c := w₂.tokens) fun x hx => by
    obtain ⟨hid, hhash⟩ := hmade.unused x (h₂.same.tokens ▸ hx)
    simp [refreshTokenIndexes, Index.and, Index.on, Ne.symm hid, Ne.symm hhash]
  simp only [World.answer, World.insertToken, World.tick, hins, commit] at hx
  cases hx
  exact ⟨made, rfl⟩

end

/-! ## A user name that is registered -/

abbrev Registered (c : DomainAuthComponent) (username password accountID : String) : World → Prop :=
  Known c .password username (some password) (· = accountID)

theorem findIdentity_none {username : String} (hnew : ∀ d ∈ w.identities, d.provider = .password → d.subject ≠ username)
    (husername : username ≠ "") : w.findIdentity .password username = .error errIdentityNotFound := by
  have hfind : w.identities.findOne (fun i => i.provider == .password && i.subject == username) = none := by
    refine Coll.findOne_eq_none.mpr fun d hd => ?_
    by_cases hprovider : d.provider = .password
    · simp [hprovider, hnew d hd hprovider]
    · simp [hprovider]
  rw [World.findIdentity, if_neg husername, hfind]

theorem accepts_iff {username password installID : String} : acceptsCredentials username password installID = true ↔
    (3 ≤ username.utf8ByteSize ∧ username.utf8ByteSize ≤ 64) ∧ (6 ≤ password.utf8ByteSize ∧ password.utf8ByteSize ≤ 128) ∧
      installID ≠ "" := by
  have hne : ∀ (s : String) n, 0 < n → n ≤ s.utf8ByteSize → s ≠ "" := by
    rintro s n hn hle rfl
    exact absurd hle (Nat.not_le.mpr hn)
  simp only [acceptsCredentials, Bool.not_eq_true', Bool.or_eq_false_iff, beq_eq_false_iff_ne, decide_eq_false_iff_not, Nat.not_lt]
  constructor
  · rintro ⟨⟨⟨⟨⟨-, hinstall⟩, hu₃⟩, hu₆₄⟩, hp₆⟩, hp₁₂₈⟩
    exact ⟨⟨hu₃, hu₆₄⟩, ⟨hp₆, hp₁₂₈⟩, hinstall⟩
  · rintro ⟨⟨hu₃, hu₆₄⟩, ⟨hp₆, hp₁₂₈⟩, hinstall⟩
    exact ⟨⟨⟨⟨⟨⟨hne _ 3 (by decide) hu₃, hne _ 6 (by decide) hp₆⟩, hinstall⟩, hu₃⟩, hu₆₄⟩, hp₆⟩, hp₁₂₈⟩

theorem identities_exec {r : Ans cmd} (hx : exec c i e w cmd = some (r, w')) : ∀ d ∈ w.identities, d ∈ w'.identities := by
  rcases exec_effect hx with rfl | ⟨r₀, hx⟩
  · exact fun _ h => h
  cases hc : cmd.sparesAuth with
  | true =>
    rw [answer_sparesAuth hc hx]
    exact fun _ h => h
  | false =>
    cases cmd with
    | newUUID | readRandom =>
      obtain ⟨-, -, -, rfl⟩ := draw_cases hx
      exact fun _ h => h
    | createAccountTx a d t =>
      rcases commit_cases (Option.some.inj hx) with ⟨_, _, _, rfl⟩ | ⟨hok, _⟩
      · exact fun _ h => h
      · exact fun x h => ((createAccountTx_docs hok).2.2 x).mpr (.inr h)
    | insertToken _ | revoke _ _ | rotateTx _ _ _ | expireToken _ =>
      rw [(answer_onTokens rfl hx).1]
      exact fun _ h => h
    | _ => cases hc

theorem registered_run {username password accountID : String} (h : Registered c username password accountID w)
    (calls : List Call) (sched : List (Nat × Env)) :
    Registered c username password accountID (Pool.run (exec c) (State.init c w calls) sched).world := by
  have hkeeps : ∀ i e w cmd r w', Registered c username password accountID w → True → exec c i e w cmd = some (r, w') →
      Registered c username password accountID w' := fun _ _ _ _ _ _ h _ hx => Crash.known_grows (identities_exec hx) h
  exact Pool.inv_run hkeeps h (Pool.along_any _ sched)

section
variable {request : PasswordAuthenticateRequest} {accountID password : String}

theorem total_same (hc : c.Lawful) (hsourced : Sourced c w) (htoken : T ≤ w.clock + c.refreshTokenTTL)
    (haccepts : acceptsCredentials (trimSpace request.username) request.password (trimSpace request.installID) = true)
    (hknown : Registered c (trimSpace request.username) request.password accountID w) (haccount : accountID ≠ "") (hT : w.clock < T) :
    Recovery.Total c T Eq i (fun _ r => GrantsAccount accountID r) (passwordAuthenticateCore c request) w := by
  have husername : trimSpace request.username ≠ "" := fun h => by simp [acceptsCredentials, h] at haccepts
  have hinstall : trimSpace request.installID ≠ "" := (accepts_iff.mp haccepts).2.2
  obtain ⟨d, hd, hprovider, hsubject, rfl, hverifies⟩ := hknown
  obtain ⟨hhash, hcompare⟩ := hverifies _ rfl
  unfold passwordAuthenticateCore
  simp only [haccepts, Bool.not_true, Bool.false_eq_true, if_false, perform, Prog.perform_bind, Prog.pure_eq]
  refine alone_step rfl (.refl hT) ⟨{}, _, _, rfl, rfl, rfl⟩ fun e r w₁ h₁ hx => ?_
  cases hx
  rw [← hsubject, ← hprovider, findIdentity_of_mem (w := w.tick e.delay) hd (hsubject ▸ husername)]
  simp only [passwordLogin, hhash, hcompare, not_true_eq_false, or_self, if_false]
  refine Pool.Total.bind ((total_issueToken hc hsourced htoken haccount hinstall h₁).mono ?_)
  rintro _ _ ⟨made, rfl⟩
  exact ⟨_, rfl, rfl⟩

theorem total_differs (hknown : Registered c (trimSpace request.username) password accountID w) (hT : w.clock < T)
    (hcompare : ∀ hash, c.compareHashAndPassword hash password = true → c.compareHashAndPassword hash request.password = false) :
    Recovery.Total c T Eq i (fun _ r => ∃ err, r = .error err) (passwordAuthenticateCore c request) w := by
  unfold passwordAuthenticateCore
  dsimp only
  split
  · exact ⟨_, rfl⟩
  rename_i haccepts
  have husername : trimSpace request.username ≠ "" := fun h => by simp [acceptsCredentials, h] at haccepts
  obtain ⟨d, hd, hprovider, hsubject, rfl, hverifies⟩ := hknown
  simp only [perform, Prog.perform_bind, Prog.pure_eq]
  refine alone_step rfl (.refl hT) ⟨{}, _, _, rfl, rfl, rfl⟩ fun e r w₁ h₁ hx => ?_
  cases hx
  rw [← hsubject, ← hprovider, findIdentity_of_mem (w := w.tick e.delay) hd (hsubject ▸ husername)]
  simp only [passwordLogin, hcompare _ (hverifies _ rfl).2, Bool.false_eq_true, not_false_eq_true, or_true, if_true]
  exact ⟨_, rfl⟩

end

/-! ## A new user name -/

theorem createAccountTx_isOk {a : Account} {d : Identity} {t : RefreshToken} (ha : a.id ≠ "")
    (haccounts : ∀ x ∈ w.accounts, x.id ≠ a.id) (hsubject : d.subject ≠ "") (hhash : d.passwordHash ≠ "") (hlink : d.accountID ≠ "")
    (hidentities : ∀ x ∈ w.identities, x.id ≠ d.id ∧ ¬ (x.provider = d.provider ∧ x.subject = d.subject))
    (ht : refreshTokenDocumentFromDomain t w.clock = .ok t) (htokens : ∀ x ∈ w.tokens, x.id ≠ t.id ∧ x.tokenHash ≠ t.tokenHash) :
    ∃ w', w.createAccountTx a d t = .ok w' := by
  obtain ⟨accounts, hins₁⟩ := Coll.insertOne_isSome (d := a) (c := w.accounts) fun x hx => by
    simp [accountIndexes, Index.on, Ne.symm (haccounts x hx)]
  obtain ⟨identities, hins₂⟩ := Coll.insertOne_isSome (d := d) (c := w.identities) fun x hx => by
    obtain ⟨hid, hpair⟩ := hidentities x hx
    simp only [identityIndexes, Index.and, Index.on, Bool.or_eq_false_iff, beq_eq_false_iff_ne, ne_eq, Prod.mk.injEq]
    exact ⟨Ne.symm hid, fun h => hpair ⟨h.1.symm, h.2.symm⟩⟩
  obtain ⟨tokens, hins₃⟩ := Coll.insertOne_isSome (d := t) (c := w.tokens) fun x hx => by
    obtain ⟨hid, hhash⟩ := htokens x hx
    simp [refreshTokenIndexes, Index.and, Index.on, Ne.symm hid, Ne.symm hhash]
  refine ⟨{ w with accounts, identities, tokens }, ?_⟩
  have hdocument : identityDocumentFromDomain d = .ok d := by
    simp only [identityDocumentFromDomain, Identity.validate, hsubject, hhash, hlink, and_false, if_false]
    rfl
  have haccount : w.createAccount a = .ok { w with accounts } := by
    simp only [World.createAccount, Account.validate, ha, if_false, hins₁]
    rfl
  have hidentity : World.createIdentity { w with accounts } d = .ok { w with accounts, identities } := by
    simp only [World.createIdentity, hdocument, bind, Except.bind, hins₂]
  have hinsert : World.insertToken { w with accounts, identities } t = .ok { w with accounts, identities, tokens } := by
    simp only [World.insertToken, hins₃]
  simp only [World.createAccountTx, bind, Except.bind, haccount, hidentity, ht, hinsert]

theorem total_hashPassword {password : String} (hbcrypt : Bcrypt c password) (hne : password ≠ "") (hlen : password.utf8ByteSize ≤ 72)
    (h : Prepared T w₀ w) :
    Recovery.Total c T Eq i (fun w' r => ∃ hash, r = .ok hash ∧ hash ≠ "" ∧ c.compareHashAndPassword hash password = true ∧
      Prepared T w₀ w') (hashPassword password) w := by
  unfold hashPassword
  rw [if_neg hne]
  simp only [perform, Prog.perform_bind, Prog.pure_eq]
  have hshort : ¬ 72 < password.utf8ByteSize := Nat.not_lt.mpr hlen
  refine alone_step rfl h ?_ fun e r w₁ h₁ hx => ?_
  · obtain ⟨hash, hhash, hcompare⟩ := hbcrypt.hashes hne hlen
    exact ⟨{ id := hash }, .ok hash, w, rfl, rfl, by simp [World.answer, hshort, hhash, hcompare]⟩
  simp only [World.answer, if_neg hshort] at hx
  split at hx
  · rename_i hid
    cases hx
    exact ⟨e.id, rfl, hid.1, hid.2, h₁⟩
  · cases hx

section
variable {username password : String} (hnew : ∀ d ∈ w₀.identities, d.provider = .password → d.subject ≠ username)
include hnew

theorem total_createAccountAndToken (hc : c.Lawful) (hbcrypt : Bcrypt c password) (hsourced : Sourced c w₀)
    (htoken : T ≤ w₀.clock + c.refreshTokenTTL) (husername : username ≠ "") (hpassword : password ≠ "")
    (hlen : password.utf8ByteSize ≤ 72) {installID : String} (hinstall : trimSpace installID ≠ "") (h : Prepared T w₀ w) :
    Recovery.Total c T Eq i (fun w' r => ∃ made, r = .ok made ∧ made.1 ≠ "" ∧ (∀ a ∈ w₀.accounts, a.id ≠ made.1) ∧
      (∃ a ∈ w'.accounts, a.id = made.1) ∧ Registered c username password made.1 w')
      (createAccountAndToken c .password username password (trimSpace installID)) w := by
  simp only [createAccountAndToken, perform, Prog.perform_bind]
  refine alone_newUUID h fun w₁ accountID h₁ haccount hunused => ?_
  refine alone_newUUID h₁ fun w₂ identityID h₂ _ hunused' => ?_
  refine Pool.Total.bind ((total_hashPassword hbcrypt hpassword hlen h₂).mono ?_)
  rintro w₃ _ ⟨hash, rfl, hhash, hcompare, h₃⟩
  refine alone_step rfl h₃ ⟨{}, _, _, rfl, rfl, rfl⟩ fun e now w₄ h₄ _ => ?_
  refine Pool.Total.bind ((total_newToken hc hsourced htoken haccount hinstall h₄).mono ?_)
  rintro w₅ _ ⟨⟨token, raw⟩, rfl, h₅, -, htoken'⟩
  refine Recovery.alone_call h₅.before ⟨{}, _, _, rfl, rfl, rfl⟩ fun e r w₆ hT hx => ?_
  -- the ids in the store were all drawn before, and the new ones were not
  have haccounts : ∀ a ∈ w₀.accounts, a.id ≠ accountID := by
    intro a ha heq
    obtain ⟨j, hj⟩ := hsourced.accounts a ha
    exact hunused _ hj heq
  have hidentities : ∀ x ∈ w₀.identities, x.id ≠ identityID ∧ ¬ (x.provider = .password ∧ x.subject = username) := by
    refine fun x hx => ⟨fun heq => ?_, fun hsame => hnew x hx hsame.1 hsame.2⟩
    obtain ⟨j, hj⟩ := hsourced.identities x hx
    exact hunused' _ hj heq
  obtain ⟨w', hok⟩ := createAccountTx_isOk (w := w₅.tick e.delay) (a := { id := accountID, createdAt := now, updatedAt := now })
    (d := { id := identityID, accountID, provider := .password, subject := username, passwordHash := hash, linkedAt := now })
    (t := token) haccount (fun x hx => haccounts x (h₅.same.accounts ▸ hx)) husername hhash haccount
    (fun x hx => hidentities x (h₅.same.identities ▸ hx)) (htoken'.valid _ hT) fun x hx => htoken'.unused x (h₅.same.tokens ▸ hx)
  simp only [World.answer, hok, commit] at hx
  cases hx
  obtain ⟨hstored, -, hlinked⟩ := createAccountTx_docs hok
  exact ⟨_, rfl, haccount, haccounts, ⟨_, (hstored _).mpr (.inl rfl), rfl⟩, _, (hlinked _).mpr (.inl rfl), rfl, rfl, rfl,
    fun _ heq => Option.some.inj heq ▸ ⟨hhash, hcompare⟩⟩

theorem total_long {request : PasswordAuthenticateRequest} (hlong : 72 < request.password.utf8ByteSize)
    (heq : trimSpace request.username = username) (h : Prepared T w₀ w) :
    Recovery.Total c T Eq i (fun _ r => ∃ err, r = .error err) (passwordAuthenticateCore c request) w := by
  unfold passwordAuthenticateCore
  dsimp only
  split
  · exact ⟨_, rfl⟩
  rename_i haccepts
  subst heq
  have husername : trimSpace request.username ≠ "" := fun h => by simp [acceptsCredentials, h] at haccepts
  have hpassword : request.password ≠ "" := fun h => by simp [acceptsCredentials, h] at haccepts
  have hmissing : ∀ w, Prepared T w₀ w → w.findIdentity .password (trimSpace request.username) = .error errIdentityNotFound :=
    fun w h => findIdentity_none (fun d hd => hnew d (h.same.identities ▸ hd)) husername
  simp only [perform, Prog.perform_bind, Prog.pure_eq]
  refine alone_step rfl h ⟨{}, _, _, rfl, rfl, rfl⟩ fun e r w₁ h₁ hx => ?_
  cases hx
  rw [hmissing _ h₁]
  have hnotFound : (!errIdentityNotFound.is errIdentityNotFound) = false := rfl
  simp only [hnotFound, Bool.false_eq_true, if_false, createAccountAndToken, hashPassword, if_neg hpassword, perform,
    Prog.perform_bind]
  refine Pool.Total.bind ?_
  refine alone_newUUID h₁ fun w₂ _ h₂ _ _ => alone_newUUID h₂ fun w₃ _ h₃ _ _ => Pool.Total.bind ?_
  -- bcrypt refuses the password, and the identity is looked up once more
  refine alone_step rfl h₃ ⟨{}, _, _, rfl, rfl, by simp only [World.answer, if_pos hlong]; rfl⟩ fun e r w₄ h₄ hx => ?_
  simp only [World.answer, if_pos hlong] at hx
  cases hx
  refine alone_step rfl h₄ ⟨{}, _, _, rfl, rfl, rfl⟩ fun e r w₅ h₅ hx => ?_
  cases hx
  rw [hmissing _ h₅]
  exact ⟨_, rfl⟩

end

theorem total_sourced {prog : Prog Ans α} (hsound : Sourced.Sound c i (fun _ _ => True) prog w) (hw : Sourced c w)
    (h : Recovery.Total c T Eq i post prog w) :
    Recovery.Total c T Eq i (fun w' a => post w' a ∧ Sourced c w') prog w := by
  induction prog generalizing w with
  | ret a => exact ⟨h, hw⟩
  | call cmd k ih =>
    intro w₁ hw₁
    subst hw₁
    obtain ⟨hcan, hnext⟩ := h w rfl
    refine ⟨hcan, fun e r w₂ he hx => ?_⟩
    obtain ⟨hw₂, -, hk⟩ := hsound e w r w₂ (Sourced.Grows.refl w) hw trivial hx
    exact ih r hk hw₂ (hnext e r w₂ he hx)

theorem recognises {username password accountID : String} (hc : c.Lawful) (hbcrypt : Bcrypt c password) (hsourced : Sourced c w)
    (hpassword : 6 ≤ password.utf8ByteSize ∧ password.utf8ByteSize ≤ 72)
    (husername : 3 ≤ username.utf8ByteSize ∧ username.utf8ByteSize ≤ 64) (haccount : accountID ≠ "")
    (hknown : Registered c username password accountID w) : Recognises c username password accountID w := by
  refine ⟨fun i T request hu hp hinstall hT htoken => ?_, fun i T request hu hp hT => ?_⟩
  · subst hu hp
    have hlen : request.password.utf8ByteSize ≤ 128 := Nat.le_trans hpassword.2 (by decide)
    exact total_same hc hsourced htoken (accepts_iff.mpr ⟨husername, ⟨hpassword.1, hlen⟩, hinstall⟩) hknown haccount hT
  · subst hu
    refine total_differs hknown hT fun hash hverifies => ?_
    exact Bool.eq_false_iff.mpr fun hcompare => hp (hbcrypt.exact hpassword.2 hash _ hverifies hcompare)

theorem registers {request : PasswordAuthenticateRequest} (hc : c.Lawful) (hbcrypt : Bcrypt c request.password) (hsourced : Sourced c w)
    (husername : 3 ≤ (trimSpace request.username).utf8ByteSize ∧ (trimSpace request.username).utf8ByteSize ≤ 64)
    (hpassword : 6 ≤ request.password.utf8ByteSize ∧ request.password.utf8ByteSize ≤ 72)
    (hinstall : trimSpace request.installID ≠ "")
    (hnew : ∀ d ∈ w.identities, d.provider = .password → d.subject ≠ trimSpace request.username) (hT : w.clock < T)
    (htoken : T ≤ w.clock + c.refreshTokenTTL) : Registers c T i request w := by
  have hlen : request.password.utf8ByteSize ≤ 128 := Nat.le_trans hpassword.2 (by decide)
  have haccepts := accepts_iff.mpr ⟨husername, ⟨hpassword.1, hlen⟩, hinstall⟩
  have hne : trimSpace request.username ≠ "" := fun h => by simp [acceptsCredentials, h] at haccepts
  have hne' : request.password ≠ "" := fun h => by simp [acceptsCredentials, h] at haccepts
  have hcore : Recovery.Total c T Eq i (fun w' r => ∃ accountID, GrantsAccount accountID r ∧ accountID ≠ "" ∧
      (∀ a ∈ w.accounts, a.id ≠ accountID) ∧ (∃ a ∈ w'.accounts, a.id = accountID) ∧
      Registered c (trimSpace request.username) request.password accountID w') (passwordAuthenticateCore c request) w := by
    unfold passwordAuthenticateCore
    simp only [haccepts, Bool.not_true, Bool.false_eq_true, if_false, perform, Prog.perform_bind, Prog.pure_eq]
    refine alone_step rfl (.refl hT) ⟨{}, _, _, rfl, rfl, rfl⟩ fun e r w₁ h₁ hx => ?_
    cases hx
    have hnotFound : (!errIdentityNotFound.is errIdentityNotFound) = false := rfl
    rw [findIdentity_none (w := w.tick e.delay) hnew hne]
    simp only [hnotFound, Bool.false_eq_true, if_false]
    refine Pool.Total.bind ((total_createAccountAndToken hnew hc hbcrypt hsourced htoken hne hne' hpassword.2 hinstall h₁).mono ?_)
    rintro w₂ _ ⟨⟨accountID, token, raw⟩, rfl, haccount, hfresh, hstored, hknown⟩
    exact ⟨accountID, ⟨_, rfl, rfl⟩, haccount, hfresh, hstored, hknown⟩
  refine (total_sourced (Sourced.sound_passwordAuthenticateCore request) hsourced hcore).mono fun w' r h => ?_
  obtain ⟨⟨accountID, hgrants, haccount, hfresh, hstored, hknown⟩, hsourced'⟩ := h
  refine ⟨accountID, hgrants, hfresh, hstored, fun calls sched => ?_⟩
  exact recognises hc hbcrypt (hsourced'.run calls sched) hpassword husername haccount (registered_run hknown calls sched)

end Registration

open Registration in
/-- In any run, for a user name and a password that pass the length checks, with
a user name that is new, the call by itself registers the account and the
credentials work from then on, if and only if the password has at most 72
bytes. -/
theorem credentials_work_iff (c : DomainAuthComponent) (hc : c.Lawful) (calls : List Call) (clock : Time) (sched : List (Nat × Env))
    (i : Nat) (T : Time) (request : PasswordAuthenticateRequest) (hbcrypt : Bcrypt c request.password)
    (husername : 3 ≤ (trimSpace request.username).utf8ByteSize ∧ (trimSpace request.username).utf8ByteSize ≤ 64)
    (hpassword : 6 ≤ request.password.utf8ByteSize ∧ request.password.utf8ByteSize ≤ 128)
    (hinstall : trimSpace request.installID ≠ "")
    (hnew : ∀ d ∈ (Pool.run (exec c) (State.init c (.init clock) calls) sched).world.identities, d.provider = .password →
      d.subject ≠ trimSpace request.username)
    (hT : (Pool.run (exec c) (State.init c (.init clock) calls) sched).world.clock < T)
    (htoken : T ≤ (Pool.run (exec c) (State.init c (.init clock) calls) sched).world.clock + c.refreshTokenTTL) :
    Registers c T i request (Pool.run (exec c) (State.init c (.init clock) calls) sched).world ↔
      request.password.utf8ByteSize ≤ 72 := by
  have hsourced := (Sourced.init (c := c) clock).run calls sched
  refine ⟨fun h => Nat.not_lt.mp fun hlong => ?_, fun hlen => ?_⟩
  · -- the one call that there is both succeeds and fails
    obtain ⟨w, r, ⟨accountID, ⟨g, hg, -⟩, -⟩, err, herr⟩ :=
      (Pool.Total.and h (total_long hnew hlong rfl (.refl hT))).exists_post fun _ => rfl
    cases hg.symm.trans herr
  · exact registers hc hbcrypt hsourced husername ⟨hpassword.1, hlen⟩ hinstall hnew hT htoken

theorem plainComponent_bcrypt (password : String) : Bcrypt plainComponent password := by
  refine ⟨fun hp _ => ⟨password, hp, by simp [plainComponent]⟩, fun _ hash p' h h' => ?_⟩
  simp only [plainComponent, beq_iff_eq] at h h'
  exact h'.symm.trans h

def annaRegisters : PasswordAuthenticateRequest := { username := " anna ", password := "secret", installID := "phone" }

theorem credentials_work_anna : Registers plainComponent 100 0 annaRegisters (World.init 5) := by
  have hnew : ∀ d ∈ (World.init 5).identities, d.provider = .password → d.subject ≠ trimSpace annaRegisters.username :=
    fun d hd => absurd hd (Coll.not_mem_empty d)
  exact (credentials_work_iff plainComponent plainComponent_lawful [] 5 [] 0 100 annaRegisters (plainComponent_bcrypt _)
    (by decide +kernel) (by decide +kernel) (by decide +kernel) hnew (by decide) (by decide)).mpr (by decide +kernel)

def longPassword : String := String.ofList (List.replicate 73 'x')

theorem long_password_refused :
    acceptsCredentials "anna" longPassword "phone" = true ∧
      (Pool.run (exec plainComponent)
        (State.init plainComponent (.init 5) [.serve {} (.passwordAuthenticate
          (some { username := "anna", password := longPassword, installID := "phone" }))])
        (drawing (["", "account", "identity", "", ""].map (0, ·)))).answer 0 =
        some (some (.error (.wrap "create password account"
          (.wrap "hash password" (.new "bcrypt: password length exceeds 72 bytes"))))) := by
  decide +kernel

end GameServer.UserCenter
