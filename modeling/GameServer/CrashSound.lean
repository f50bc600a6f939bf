import GameServer.LoginSound

/-!
# The user center: what an interrupted execution leaves behind

A process may stop at any point of a keyed request. If the request has changed
the tokens by then, its record is under the key, and the store has what a second
execution will find: for a login the identity and whatever else the login asks
for, for a refresh or a revoke the token, used up.
-/

namespace GameServer.UserCenter

structure Sane (c : DomainAuthComponent) (w : World) : Prop where
  id : ∀ t ∈ w.tokens, ∃ i, (i, t.id) ∈ w.drawn
  hash : ∀ t ∈ w.tokens, ∃ i raw, (i, raw) ∈ w.drawn ∧ t.tokenHash = c.authHashToken raw

def Agree (key : String) (operation : Operation) (requestHash : String) (w : World) : Prop :=
  ∀ d ∈ w.records, d.key = key → d.operation = operation ∧ d.requestHash = requestHash

def Issuable (c : DomainAuthComponent) (installID : String) : Prop :=
  installID ≠ "" ∧ trimSpace installID ≠ "" ∧ c.refreshTokenTTL ≠ 0

def Known (c : DomainAuthComponent) (provider : AuthProvider) (subject : String) (password : Option String)
    (account : String → Prop) (w : World) : Prop :=
  ∃ d ∈ w.identities, d.provider = provider ∧ d.subject = subject ∧ account d.accountID ∧
    ∀ p, password = some p → d.passwordHash ≠ "" ∧ c.compareHashAndPassword d.passwordHash p = true

def Spent (tokenHash : String) (w : World) : Prop := ∀ t ∈ w.tokens, t.tokenHash = tokenHash → t.revokedAt ≠ none

def GuestDone (c : DomainAuthComponent) (installID : String) (w : World) : Prop :=
  Issuable c installID ∧ Known c .guest installID none (· ≠ "") w

def PasswordDone (c : DomainAuthComponent) (username password installID : String) (w : World) : Prop :=
  acceptsCredentials username password installID = true ∧ Issuable c installID ∧ Known c .password username (some password) (· ≠ "") w

def Executed (c : DomainAuthComponent) : Request → World → Prop
  | .guest r => GuestDone c (trimSpace r.installID)
  | .password r => PasswordDone c (trimSpace r.username) r.password (trimSpace r.installID)
  | .clientLogin r =>
    match r.provider with
    | .provider .guest => GuestDone c (trimSpace r.installID)
    | .provider .password => PasswordDone c (trimSpace r.username) r.password (trimSpace r.installID)
    | _ => fun _ => False
  | .refresh r => Spent (c.authHashToken r.refreshToken)
  | .clientRefresh r => Spent (c.authHashToken r.refreshToken)
  | .revoke r => Spent (c.authHashToken r.refreshToken)

-- no proof here evaluates a string, and nothing should try to
attribute [local irreducible] trimSpace

namespace Crash

variable {c : DomainAuthComponent} {i : Nat} {e : Env} {w w' : World} {cmd : Cmd} {key : String} {operation : Operation}
  {requestHash : String}

/-! ## Records keep their request -/

theorem record_origin {r : Ans cmd} (h : exec c i e w cmd = some (r, w')) {d : IdempotencyRecord} (hd : d ∈ w'.records) :
    (∃ d₀ ∈ w.records, d.key = d₀.key ∧ d.operation = d₀.operation ∧ d.requestHash = d₀.requestHash) ∨
      cmd = .insertRecord d := by
  by_cases htags : Login.Cmd.tags cmd = false
  · obtain ⟨d₀, hd₀, rfl | ⟨_, leaseUntil, rfl⟩⟩ := Login.keeps_exec htags h d hd
    · exact .inl ⟨d, hd₀, rfl, rfl, rfl⟩
    · exact .inl ⟨d₀, hd₀, rfl, rfl, rfl⟩
  rcases exec_effect h with rfl | ⟨r₀, hx⟩
  · exact .inl ⟨d, hd, rfl, rfl, rfl⟩
  cases cmd with
  | insertRecord document =>
    simp only [World.answer] at hx
    split at hx
    · rename_i records hins
      cases hx
      rcases (Coll.mem_insertOne hins d).mp hd with rfl | hd
      · exact .inr rfl
      · exact .inl ⟨d, hd, rfl, rfl, rfl⟩
    · cases hx
      exact .inl ⟨d, hd, rfl, rfl, rfl⟩
  | claim key' reservationID now newID leaseUntil =>
    cases hx
    rcases claim_cases rfl with ⟨_, heq⟩ | ⟨d₀, hd₀, _, _, _, hmem⟩
    · rw [heq] at hd
      exact .inl ⟨d, hd, rfl, rfl, rfl⟩
    · rcases (hmem d).mp hd with ⟨hd, _⟩ | rfl
      · exact .inl ⟨d, hd, rfl, rfl, rfl⟩
      · exact .inl ⟨d₀, hd₀, rfl, rfl, rfl⟩
  | complete key' reservationID response now =>
    rcases commit_cases (Option.some.inj hx) with ⟨_, _, _, rfl⟩ | ⟨hok, _⟩
    · exact .inl ⟨d, hd, rfl, rfl, rfl⟩
    · obtain ⟨d₀, hd₀, _, _, hmem⟩ := complete_ok hok
      rcases (hmem d).mp hd with ⟨hd, _⟩ | rfl
      · exact .inl ⟨d, hd, rfl, rfl, rfl⟩
      · exact .inl ⟨d₀, hd₀, rfl, rfl, rfl⟩
  | _ => exact absurd rfl htags

theorem agree_exec {r : Ans cmd} (hagree : Agree key operation requestHash w) (h : exec c i e w cmd = some (r, w'))
    (hins : ∀ d, cmd = .insertRecord d → d.operation = operation ∧ d.requestHash = requestHash) :
    Agree key operation requestHash w' := by
  intro d hd hkey
  rcases record_origin h hd with ⟨d₀, hd₀, hkey₀, hoperation, hhash⟩ | hcmd
  · rw [hoperation, hhash]
    exact hagree d₀ hd₀ (hkey₀ ▸ hkey)
  · exact hins d hcmd

theorem agree_of_mem {d : IdempotencyRecord} (hd : d ∈ w.records) (hoperation : d.operation = operation)
    (hhash : d.requestHash = requestHash) : Agree d.key operation requestHash w := by
  intro d' hd' hkey
  obtain rfl : d = d' := Coll.eq_of_clash hd hd' (by simp [idempotencyIndexes, hkey])
  exact ⟨hoperation, hhash⟩

/-! ## Invariant

`R` is what the request leaves behind and `A` says that its record is under the
key: both hold once the tokens are not those of the start, `w₀`. -/

section
variable (c) (w₀ : World) (R A : World → Prop)

structure Inv (w : World) : Prop where
  sane : Sane c w
  wrote : w.tokens = w₀.tokens ∨ R w ∧ A w

structure Later (w w' : World) : Prop where
  identities : ∀ d ∈ w.identities, d ∈ w'.identities
  drawn : ∀ x ∈ w.drawn, x ∈ w'.drawn
  tokens : ∀ t ∈ w.tokens, ∃ t' ∈ w'.tokens, t'.id = t.id ∧ t'.tokenHash = t.tokenHash
  agree : A w → A w'

abbrev Sound {α : Type} (i : Nat) (post : World → α → Prop) (prog : Prog Ans α) (w : World) : Prop :=
  Pool.Safe (exec c) (fun i _ _ _ => i = 0) (Inv c w₀ R A) (fun _ => Later A) i post prog w

abbrev Does (i : Nat) (cmd : Cmd) (pre : World → Prop) (gives : Ans cmd → World → Prop) : Prop :=
  Pool.Does (exec c) (fun i _ _ _ => i = 0) (Inv c w₀ R A) (fun _ => Later A) i cmd pre gives

def Lasts : Prop := ∀ w w', (∀ d ∈ w.identities, d ∈ w'.identities) → (∀ t ∈ w'.tokens, t ∈ w.tokens) → R w → R w'

def Made (t : RefreshToken) (w : World) : Prop :=
  (∃ i, (i, t.id) ∈ w.drawn) ∧ ∃ i raw, (i, raw) ∈ w.drawn ∧ t.tokenHash = c.authHashToken raw

end

variable {w₀ : World} {R A : World → Prop} {P : World → Prop}

theorem Later.refl (w : World) : Later A w w :=
  ⟨fun _ h => h, fun _ h => h, fun t ht => ⟨t, ht, rfl, rfl⟩, fun h => h⟩

theorem Later.trans {w'' : World} (h : Later A w w') (h' : Later A w' w'') : Later A w w'' := by
  refine ⟨fun d hd => h'.identities d (h.identities d hd), fun x hx => h'.drawn x (h.drawn x hx), fun t ht => ?_,
    fun hA => h'.agree (h.agree hA)⟩
  obtain ⟨t', ht', hid, hhash⟩ := h.tokens t ht
  obtain ⟨t'', ht'', hid', hhash'⟩ := h'.tokens t' ht'
  exact ⟨t'', ht'', hid'.trans hid, hhash'.trans hhash⟩

variable {t : RefreshToken} {gives : Ans cmd → World → Prop}

theorem Made.later (h : Made c t w) (hl : Later A w w') : Made c t w' := by
  obtain ⟨⟨i, hid⟩, j, raw, hraw, hhash⟩ := h
  exact ⟨⟨i, hl.drawn _ hid⟩, j, raw, hl.drawn _ hraw, hhash⟩

theorem sane_of_tokens (h : Sane c w) (htokens : w'.tokens = w.tokens) (hdrawn : ∀ x ∈ w.drawn, x ∈ w'.drawn) : Sane c w' := by
  refine ⟨fun t ht => ?_, fun t ht => ?_⟩
  · obtain ⟨i, hi⟩ := h.id t (htokens ▸ ht)
    exact ⟨i, hdrawn _ hi⟩
  · obtain ⟨i, raw, hraw, hhash⟩ := h.hash t (htokens ▸ ht)
    exact ⟨i, raw, hdrawn _ hraw, hhash⟩

theorem does_of_same (hR : Lasts R) (h : ∀ e w r w', P w → exec c i e w cmd = some (r, w') →
      w'.identities = w.identities ∧ w'.tokens = w.tokens ∧ (∀ x ∈ w.drawn, x ∈ w'.drawn) ∧ (A w → A w') ∧ gives r w') :
    Does c w₀ R A i cmd P gives := by
  intro e w r w' hi hP _ hx
  obtain ⟨hd, ht, hdrawn, hagree, hgives⟩ := h e w r w' hP hx
  have hidentities : ∀ d ∈ w.identities, d ∈ w'.identities := fun d h => hd ▸ h
  refine ⟨⟨sane_of_tokens hi.sane ht hdrawn, ?_⟩, fun _ => ⟨hidentities, hdrawn, fun t h => ⟨t, ht ▸ h, rfl, rfl⟩, hagree⟩, hgives⟩
  rcases hi.wrote with hsame | ⟨hleft, hA⟩
  · exact .inl (ht.trans hsame)
  · exact .inr ⟨hR w w' hidentities (fun t h => ht ▸ h) hleft, hagree hA⟩

theorem does_quiet (hR : Lasts R) (hc : cmd.sparesAuth)
    (hagree : ∀ e w r w', P w → exec c i e w cmd = some (r, w') → A w → A w')
    (hg : ∀ e w r w', P w → exec c i e w cmd = some (r, w') → gives r w') : Does c w₀ R A i cmd P gives := by
  refine does_of_same hR fun e w r w' hP hx => ?_
  obtain ⟨⟨-, hd, hdraws⟩, ht⟩ := Login.exec_sparesAuth hc hx
  exact ⟨hd, ht, hdraws.mono, hagree e w r w' hP hx, hg e w r w' hP hx⟩

theorem does_draw {string? : Ans cmd → Except GoErr String} (hR : Lasts R)
    (hagree : ∀ e w r w', exec c i e w cmd = some (r, w') → A w → A w')
    (hdraws : ∀ e w r w', exec c i e w cmd = some (r, w') → Draws i w w' (string? r)) :
    Does c w₀ R A i cmd P fun r w => ∀ x, string? r = .ok x → (i, x) ∈ w.drawn := by
  refine does_of_same hR fun e w r w' _ hx => ?_
  obtain ⟨-, hd, ht, -, hdrawn⟩ := hdraws e w r w' hx
  refine ⟨hd, ht, ?_, hagree e w r w' hx, fun _ => (hdraws e w r w' hx).mem⟩
  rcases hdrawn with ⟨_, h⟩ | ⟨x, _, _, h, _⟩
  · exact fun y hy => h ▸ hy
  · exact fun y hy => h ▸ List.mem_cons_of_mem _ hy

theorem does_tokens (h : ∀ e w r w', P w → exec c i e w cmd = some (r, w') → w' = w.tick e.delay ∧ gives r w' ∨
      ((∀ d ∈ w.identities, d ∈ w'.identities) ∧ w'.drawn = w.drawn ∧ w'.records = w.records) ∧
      (∀ t ∈ w.tokens, ∃ t' ∈ w'.tokens, t'.id = t.id ∧ t'.tokenHash = t.tokenHash) ∧
      (∀ t ∈ w'.tokens, Made c t w ∨ ∃ t₀ ∈ w.tokens, t.id = t₀.id ∧ t.tokenHash = t₀.tokenHash) ∧
      R w' ∧ A w ∧ gives r w') (hR : Lasts R) (hA : ∀ w w', w'.records = w.records → A w → A w') :
    Does c w₀ R A i cmd P gives := by
  intro e w r w' hi hP _ hx
  rcases h e w r w' hP hx with ⟨rfl, hgives⟩ | ⟨⟨hd, hdrawn, hrecords⟩, hkeep, hmade, hleft, hagree, hgives⟩
  · have hagree : A w → A (w.tick e.delay) := hA w _ rfl
    refine ⟨⟨⟨hi.sane.id, hi.sane.hash⟩, ?_⟩, fun _ => ⟨fun _ h => h, fun _ h => h, fun t h => ⟨t, h, rfl, rfl⟩, hagree⟩, hgives⟩
    rcases hi.wrote with hsame | ⟨hleft, h⟩
    · exact .inl hsame
    · exact .inr ⟨hR w _ (fun _ h => h) (fun _ h => h) hleft, hagree h⟩
  · refine ⟨⟨⟨fun t ht => ?_, fun t ht => ?_⟩, .inr ⟨hleft, hA w w' hrecords hagree⟩⟩,
      fun _ => ⟨hd, fun x h => hdrawn ▸ h, hkeep, hA w w' hrecords⟩, hgives⟩
    · rw [hdrawn]
      rcases hmade t ht with hm | ⟨t₀, ht₀, hid, _⟩
      · exact hm.1
      · exact hid ▸ hi.sane.id t₀ ht₀
    · rw [hdrawn]
      rcases hmade t ht with hm | ⟨t₀, ht₀, _, hhash⟩
      · exact hm.2
      · exact hhash ▸ hi.sane.hash t₀ ht₀

theorem token_eq {t' : RefreshToken} (ht : t ∈ w.tokens) (ht' : t' ∈ w.tokens)
    (h : t.id = t'.id ∨ t.tokenHash = t'.tokenHash) :
    t = t' := by
  apply Coll.eq_of_clash ht ht'
  simpa [refreshTokenIndexes] using h

theorem spent_of_mem {now : Time} {tokenHash : String} (ht : t.revokedFrom now ∈ w.tokens)
    (hhash : t.tokenHash = tokenHash) : Spent tokenHash w := by
  intro x hx hxhash
  obtain rfl : x = t.revokedFrom now := token_eq hx ht (.inr (hxhash.trans hhash.symm))
  intro h
  cases h

theorem does_insertToken (hlogin : ∀ w w', (∀ d ∈ w.identities, d ∈ w'.identities) → R w → R w')
    (hA : ∀ w w', w'.records = w.records → A w → A w') :
    Does c w₀ R A i (.insertToken t) (fun w => Made c t w ∧ R w ∧ A w) fun _ _ => True := by
  refine does_tokens (fun e w r w' hP hx => ?_) (fun w w' hd _ => hlogin w w' hd) hA
  rcases exec_insertToken hx with ⟨_, rfl⟩ | hok
  · exact .inl ⟨rfl, trivial⟩
  obtain ⟨heq, hmem⟩ := insertToken_ok hok
  have hd : ∀ d ∈ w.identities, d ∈ w'.identities := fun d h => by rw [heq]; exact h
  refine .inr ⟨⟨hd, by rw [heq]; rfl, by rw [heq]; rfl⟩, fun x hx => ⟨x, (hmem x).mpr (.inr hx), rfl, rfl⟩, fun x hx => ?_,
    hlogin w w' hd hP.2.1, hP.2.2, trivial⟩
  rcases (hmem x).mp hx with rfl | hx
  · exact .inl hP.1
  · exact .inr ⟨x, hx, rfl, rfl⟩

theorem createAccountTx_valid {a : Account} {d : Identity} (h : w.createAccountTx a d t = .ok w') :
    d.accountID ≠ "" ∧ t.installID ≠ "" := by
  obtain ⟨w₁, h₁, h⟩ := bind_eq_ok h
  obtain ⟨w₂, h₂, h⟩ := bind_eq_ok h
  obtain ⟨t', h₃, h⟩ := bind_eq_ok h
  constructor
  · obtain ⟨d', hd', _⟩ := bind_eq_ok h₂
    obtain ⟨_, _, hd'⟩ := bind_eq_ok hd'
    intro hempty
    rw [if_pos hempty] at hd'
    cases hd'
  · intro hempty
    simp [refreshTokenDocumentFromDomain, hempty] at h₃

theorem does_createAccountTx {a : Account} {d : Identity} (hR : Lasts R)
    (hleft : ∀ w', d ∈ w'.identities → d.accountID ≠ "" → t.installID ≠ "" → R w')
    (hA : ∀ w w', w'.records = w.records → A w → A w') :
    Does c w₀ R A i (.createAccountTx a d t) (fun w => Made c t w ∧ A w) fun _ _ => True := by
  refine does_tokens (fun e w r w' hP hx => ?_) hR hA
  rcases exec_createAccountTx hx with ⟨_, rfl⟩ | hok
  · exact .inl ⟨rfl, trivial⟩
  obtain ⟨heq, hmem⟩ := createAccountTx_ok hok
  obtain ⟨-, -, hidentities⟩ := createAccountTx_docs hok
  obtain ⟨haccount, hinstall⟩ := createAccountTx_valid hok
  refine .inr ⟨⟨fun x h => (hidentities x).mpr (.inr h), by rw [heq]; rfl, by rw [heq]; rfl⟩,
    fun x hx => ⟨x, (hmem x).mpr (.inr hx), rfl, rfl⟩, fun x hx => ?_,
    hleft w' ((hidentities d).mpr (.inl rfl)) haccount hinstall, hP.2, trivial⟩
  rcases (hmem x).mp hx with rfl | hx
  · exact .inl hP.1
  · exact .inr ⟨x, hx, rfl, rfl⟩

theorem lasts_spent (tokenHash : String) : Lasts (Spent tokenHash) :=
  fun _ _ _ ht h t hmem => h t (ht t hmem)

def Held (id tokenHash : String) (w : World) : Prop := ∃ t ∈ w.tokens, t.id = id ∧ t.tokenHash = tokenHash

theorem Held.later {id tokenHash : String} (h : Held id tokenHash w) (hl : Later A w w') : Held id tokenHash w' := by
  obtain ⟨t, ht, hid, hhash⟩ := h
  obtain ⟨t', ht', hid', hhash'⟩ := hl.tokens t ht
  exact ⟨t', ht', hid'.trans hid, hhash'.trans hhash⟩

theorem does_revoke {id tokenHash : String} {now : Time} (hA : ∀ w w', w'.records = w.records → A w → A w') :
    Does c w₀ (Spent tokenHash) A i (.revoke id now) (fun w => Held id tokenHash w ∧ A w) fun _ _ => True := by
  refine does_tokens (fun e w r w' hP hx => ?_) (lasts_spent tokenHash) hA
  rcases exec_revoke hx with ⟨_, rfl⟩ | hok
  · exact .inl ⟨rfl, trivial⟩
  obtain ⟨t, ht, hid, _, heq, hmem⟩ := revoke_ok hok
  obtain ⟨⟨old, hold, hoid, hhash⟩, hagree⟩ := hP
  obtain rfl : old = t := token_eq (w := w) hold ht (.inl (hoid.trans hid.symm))
  refine .inr ⟨⟨fun d h => by rw [heq]; exact h, by rw [heq]; rfl, by rw [heq]; rfl⟩, fun x hx => ?_, fun x hx => ?_,
    spent_of_mem ((hmem _).mpr (.inr rfl)) hhash, hagree, trivial⟩
  · by_cases hf : revokeFilter id x = false
    · exact ⟨x, (hmem x).mpr (.inl ⟨hx, hf⟩), rfl, rfl⟩
    · simp only [revokeFilter, Bool.not_eq_false, Bool.and_eq_true, beq_iff_eq] at hf
      obtain rfl : x = old := token_eq hx hold (.inl (hf.1.trans hoid.symm))
      exact ⟨_, (hmem _).mpr (.inr rfl), rfl, rfl⟩
  · rcases (hmem x).mp hx with ⟨hx, _⟩ | rfl
    · exact .inr ⟨x, hx, rfl, rfl⟩
    · exact .inr ⟨old, hold, rfl, rfl⟩

theorem does_rotateTx {id tokenHash : String} {now : Time} (hA : ∀ w w', w'.records = w.records → A w → A w') :
    Does c w₀ (Spent tokenHash) A i (.rotateTx id now t) (fun w => Made c t w ∧ Held id tokenHash w ∧ A w)
      fun _ _ => True := by
  refine does_tokens (fun e w r w' hP hx => ?_) (lasts_spent tokenHash) hA
  rcases exec_rotateTx hx with ⟨_, rfl⟩ | hok
  · exact .inl ⟨rfl, trivial⟩
  obtain ⟨t₀, ht₀, hid, _, heq, hmem⟩ := rotateTx_ok hok
  obtain ⟨hmade, ⟨old, hold, hoid, hhash⟩, hagree⟩ := hP
  obtain rfl : old = t₀ := token_eq (w := w) hold ht₀ (.inl (hoid.trans hid.symm))
  have hrevoked : old.revokedFrom now ∈ w'.tokens := (hmem _).mpr (.inr (.inr rfl))
  refine .inr ⟨⟨fun d h => by rw [heq]; exact h, by rw [heq]; rfl, by rw [heq]; rfl⟩, fun x hx => ?_, fun x hx => ?_,
    spent_of_mem hrevoked hhash, hagree, trivial⟩
  · by_cases hf : rotateFilter id now x = false
    · exact ⟨x, (hmem x).mpr (.inr (.inl ⟨hx, hf⟩)), rfl, rfl⟩
    · simp only [rotateFilter, Bool.not_eq_false, Bool.and_eq_true, beq_iff_eq] at hf
      obtain rfl : x = old := token_eq hx hold (.inl (hf.1.1.trans hoid.symm))
      exact ⟨_, hrevoked, rfl, rfl⟩
  · rcases (hmem x).mp hx with rfl | ⟨hx, _⟩ | rfl
    · exact .inl hmade
    · exact .inr ⟨x, hx, rfl, rfl⟩
    · exact .inr ⟨old, hold, rfl, rfl⟩

/-! ## The cores -/

theorem Sound.later {α : Type} {post : World → α → Prop} {prog : Prog Ans α} (h : Sound c w₀ R A i post prog w) :
    Sound c w₀ R A i (fun w' a => Later A w w' ∧ post w' a) prog w :=
  Pool.Safe.later Later.refl (fun _ _ _ => Later.trans) h

theorem sound_call {α : Type} {post : World → α → Prop} {k : Ans cmd → Prog Ans α}
    (h : Does c w₀ R A i cmd (fun _ => True) gives)
    (hk : ∀ r w', Later A w w' → gives r w' → Sound c w₀ R A i post (k r) w') : Sound c w₀ R A i post (.call cmd k) w :=
  h.call (fun _ _ _ => Later.trans) (fun _ _ _ _ => trivial) trivial hk

theorem known_grows {provider : AuthProvider} {subject : String} {password : Option String} {account : String → Prop}
    (hd : ∀ d ∈ w.identities, d ∈ w'.identities) (h : Known c provider subject password account w) :
    Known c provider subject password account w' := by
  obtain ⟨d, hmem, hrest⟩ := h
  exact ⟨d, hd d hmem, hrest⟩

theorem guestDone_grows {installID : String} (w w' : World) (hd : ∀ d ∈ w.identities, d ∈ w'.identities)
    (h : GuestDone c installID w) : GuestDone c installID w' := ⟨h.1, known_grows hd h.2⟩

theorem passwordDone_grows {username password installID : String} (w w' : World)
    (hd : ∀ d ∈ w.identities, d ∈ w'.identities) (h : PasswordDone c username password installID w) :
    PasswordDone c username password installID w' := ⟨h.1, h.2.1, known_grows hd h.2.2⟩

section
variable (hA : ∀ w w', w'.records = w.records → A w → A w')
include hA

section
variable (hR : Lasts R)
include hR

theorem does_spares {gives : Ans cmd → World → Prop} (hc : cmd.sparesAuth) (hr : cmd.sparesRecords)
    (hg : ∀ e w r w', P w → exec c i e w cmd = some (r, w') → gives r w') : Does c w₀ R A i cmd P gives :=
  does_quiet hR hc (fun _ w _ w' _ hx => hA w w' (exec_sparesRecords hr hx)) hg

theorem sound_quiet {α : Type} {post : World → α → Prop} {k : Ans cmd → Prog Ans α} (hc : cmd.sparesAuth)
    (hr : cmd.sparesRecords) (hk : ∀ r w', Later A w w' → Sound c w₀ R A i post (k r) w') :
    Sound c w₀ R A i post (.call cmd k) w := by
  have h : Does c w₀ R A i cmd (fun _ => True) fun _ _ => True := does_spares hA hR hc hr fun _ _ _ _ _ _ => trivial
  exact sound_call h fun r w' hl _ => hk r w' hl

theorem does_newUUID : Does c w₀ R A i .newUUID P fun r w => ∀ x, r = .ok x → (i, x) ∈ w.drawn :=
  @does_draw c i .newUUID w₀ R A P id hR (fun _ w _ w' hx => hA w w' (exec_sparesRecords rfl hx))
    fun _ _ _ _ hx => exec_newUUID hx

theorem does_readRandom : Does c w₀ R A i .readRandom P fun r w => ∀ x, r = .ok x → (i, x) ∈ w.drawn :=
  @does_draw c i .readRandom w₀ R A P id hR (fun _ w _ w' hx => hA w w' (exec_sparesRecords rfl hx))
    fun _ _ _ _ hx => exec_readRandom hx

theorem does_findIdentity {provider : AuthProvider} {subject : String} :
    Does c w₀ R A i (.findIdentity provider subject) P fun r w => ∀ d, r = .ok d →
      d ∈ w.identities ∧ d.provider = provider ∧ d.subject = subject := by
  refine does_spares hA hR rfl rfl fun e w r w' _ hx d hr => ?_
  obtain ⟨rfl, hok⟩ := exec_findIdentity hx
  exact findIdentity_ok (hok d hr)

theorem does_findValid {tokenHash : String} {now : Time} :
    Does c w₀ R A i (.findValid tokenHash now) P fun r w => ∀ t, r = .ok t → Held t.id tokenHash w := by
  refine does_spares hA hR rfl rfl fun e w r w' _ hx t hr => ?_
  obtain ⟨rfl, hok⟩ := exec_findValid hx
  obtain ⟨hmem, hhash, -⟩ := findValid_ok (hok t hr)
  exact ⟨t, hmem, rfl, hhash⟩

theorem does_generateFromPassword {password : String} :
    Does c w₀ R A i (.generateFromPassword password) P fun r _ => ∀ hash, r = .ok hash →
      hash ≠ "" ∧ c.compareHashAndPassword hash password = true := by
  refine does_spares hA hR rfl rfl fun e w r w' _ hx hash hr => ?_
  cases hr
  exact exec_generateFromPassword hx

def MadeFor (c : DomainAuthComponent) (accountID installID : String) (w : World)
    (r : Except GoErr (RefreshToken × String)) : Prop :=
  ∀ made, r = .ok made → Made c made.1 w ∧ made.1.installID = trimSpace installID ∧ accountID ≠ "" ∧ installID ≠ "" ∧
    c.refreshTokenTTL ≠ 0

theorem sound_newToken (accountID installID : String) :
    Sound c w₀ R A i (MadeFor c accountID installID) (newToken c accountID installID) w := by
  unfold newToken
  split
  · intro _ h
    cases h
  rename_i hvalid
  simp only [not_or] at hvalid
  simp only [perform, Prog.perform_bind, Prog.pure_eq]
  refine sound_call (does_newUUID hA hR) fun r w _ hid => ?_
  cases r with
  | error err =>
    intro _ h
    cases h
  | ok tokenID =>
    refine sound_call (does_readRandom hA hR) fun r w hl hraw => ?_
    cases r with
    | error err =>
      intro _ h
      cases h
    | ok raw =>
      refine sound_quiet hA hR rfl rfl fun now w hl' made h => ?_
      cases h
      exact ⟨⟨⟨i, hl'.drawn _ (hl.drawn _ (hid _ rfl))⟩, i, raw, hl'.drawn _ (hraw _ rfl), rfl⟩, rfl, hvalid⟩

theorem sound_hashPassword (password : String) :
    Sound c w₀ R A i (fun _ r => ∀ hash, r = .ok hash → password ≠ "" →
      hash ≠ "" ∧ c.compareHashAndPassword hash password = true) (hashPassword password) w := by
  unfold hashPassword
  split
  · rename_i h
    exact fun _ _ hne => absurd h hne
  simp only [perform, Prog.perform_bind, Prog.pure_eq]
  refine sound_call (does_generateFromPassword hA hR) fun r _ _ hr => ?_
  cases r with
  | error err =>
    intro _ h
    cases h
  | ok hash =>
    intro hash' h _
    cases h
    exact hr hash rfl

theorem sound_createAccountAndToken {provider : AuthProvider} {subject password installID : String} (hagree : A w)
    (hleft : ∀ d w', d ∈ w'.identities → d.provider = provider → d.subject = subject → d.accountID ≠ "" →
      (password ≠ "" → d.passwordHash ≠ "" ∧ c.compareHashAndPassword d.passwordHash password = true) →
      Issuable c installID → R w') :
    Sound c w₀ R A i (fun _ _ => True) (createAccountAndToken c provider subject password installID) w := by
  unfold createAccountAndToken
  simp only [perform, Prog.perform_bind]
  refine sound_call (does_newUUID hA hR) fun r w hl _ => ?_
  have hagree := hl.agree hagree
  cases r with
  | error err => trivial
  | ok accountID =>
    refine sound_call (does_newUUID hA hR) fun r w hl _ => ?_
    have hagree := hl.agree hagree
    cases r with
    | error err => trivial
    | ok identityID =>
      refine Pool.Safe.bind ((sound_hashPassword hA hR password).later.mono fun w r hr => ?_)
      have hagree := hr.1.agree hagree
      cases r with
      | error err => trivial
      | ok passwordHash =>
        have hhash := hr.2 passwordHash rfl
        refine sound_quiet hA hR rfl rfl fun now w hl => ?_
        have hagree := hl.agree hagree
        refine Pool.Safe.bind ((sound_newToken hA hR accountID installID).later.mono fun w r hr => ?_)
        have hagree := hr.1.agree hagree
        cases r with
        | error err => trivial
        | ok made =>
          obtain ⟨hmade, hinstall, -, hne, httl⟩ := hr.2 made rfl
          refine (does_createAccountTx hR (fun w' hd haccount htrim => ?_) hA).call (fun _ _ _ => Later.trans)
            (fun _ _ h hl => ⟨h.1.later hl, hl.agree h.2⟩) ⟨hmade, hagree⟩ fun r w _ _ => ?_
          · exact hleft _ w' hd rfl rfl haccount hhash ⟨hne, hinstall ▸ htrim, httl⟩
          · cases r <;> trivial

end

section
variable (hlogin : ∀ w w', (∀ d ∈ w.identities, d ∈ w'.identities) → R w → R w')
include hlogin

theorem sound_createToken {t : RefreshToken} (hmade : Made c t w) (hleft : t.installID ≠ "" → R w) (hagree : A w) :
    Sound c w₀ R A i (fun _ _ => True) (createToken t) w := by
  unfold createToken
  simp only [perform, Prog.perform_bind]
  refine sound_quiet hA (fun w w' hd _ => hlogin w w' hd) rfl rfl fun now w' hl => ?_
  split
  · trivial
  · rename_i document hdocument
    have hinstall : t.installID ≠ "" := by
      intro hempty
      simp [refreshTokenDocumentFromDomain, hempty] at hdocument
    rw [refreshTokenDocumentFromDomain_ok hdocument]
    exact (does_insertToken hlogin hA).call (fun _ _ _ => Later.trans)
      (fun w w' h hl => ⟨h.1.later hl, hlogin w w' hl.identities h.2.1, hl.agree h.2.2⟩)
      ⟨hmade.later hl, hlogin _ _ hl.identities (hleft hinstall), hl.agree hagree⟩ fun _ _ _ _ => trivial

theorem sound_issueToken {accountID installID : String} (hleft : accountID ≠ "" → Issuable c installID → R w) (hagree : A w) :
    Sound c w₀ R A i (fun _ _ => True) (issueToken c accountID installID) w := by
  have hR : Lasts R := fun w w' hd _ => hlogin w w' hd
  refine Pool.Safe.bind ((sound_newToken hA hR accountID installID).later.mono fun w' r hr => ?_)
  cases r with
  | error err => trivial
  | ok made =>
    obtain ⟨hmade, hinstall, haccount, hne, httl⟩ := hr.2 made rfl
    have hleft' : made.1.installID ≠ "" → R w' := fun htrim =>
      hlogin w w' hr.1.identities (hleft haccount ⟨hne, hinstall ▸ htrim, httl⟩)
    refine Pool.Safe.bind ((sound_createToken hA hlogin hmade hleft' (hr.1.agree hagree)).mono fun _ r _ => ?_)
    cases r <;> trivial

end

theorem sound_guestLogin {d : Identity} {installID : String} (hd : d ∈ w.identities) (hprovider : d.provider = .guest)
    (hsubject : d.subject = installID) (hagree : A w) :
    Sound c w₀ (GuestDone c installID) A i (fun _ _ => True) (guestLogin c d installID) w := by
  have hleft : d.accountID ≠ "" → Issuable c installID → GuestDone c installID w := fun haccount hissuable =>
    ⟨hissuable, d, hd, hprovider, hsubject, haccount, fun _ h => by cases h⟩
  refine Pool.Safe.bind ((sound_issueToken hA guestDone_grows hleft hagree).mono fun _ r _ => ?_)
  cases r <;> trivial

theorem sound_guestAuthenticateCore (request : GuestAuthenticateRequest) (hagree : A w) :
    Sound c w₀ (GuestDone c (trimSpace request.installID)) A i (fun _ _ => True) (guestAuthenticateCore c request) w := by
  have hR : Lasts (GuestDone c (trimSpace request.installID)) := fun w w' hd _ => guestDone_grows w w' hd
  unfold guestAuthenticateCore
  simp only [perform, Prog.perform_bind]
  refine sound_call (does_findIdentity hA hR) fun r w hl hr => ?_
  have hagree := hl.agree hagree
  cases r with
  | ok d =>
    obtain ⟨hd, hprovider, hsubject⟩ := hr d rfl
    exact sound_guestLogin hA hd hprovider hsubject hagree
  | error err =>
    dsimp only
    split
    · trivial
    refine Pool.Safe.bind ((sound_createAccountAndToken hA hR hagree ?_).later.mono fun w r hr => ?_)
    · exact fun d w' hd hprovider hsubject haccount _ hissuable =>
        ⟨hissuable, d, hd, hprovider, hsubject, haccount, fun _ h => by cases h⟩
    have hagree := hr.1.agree hagree
    cases r with
    | ok made => trivial
    | error createErr =>
      refine sound_call (does_findIdentity hA hR) fun r w hl hr => ?_
      cases r with
      | error err => trivial
      | ok d =>
        obtain ⟨hd, hprovider, hsubject⟩ := hr d rfl
        exact sound_guestLogin hA hd hprovider hsubject (hl.agree hagree)

theorem sound_passwordLogin {d : Identity} {username password installID : String}
    (haccepts : acceptsCredentials username password installID = true) (hd : d ∈ w.identities)
    (hprovider : d.provider = .password) (hsubject : d.subject = username) (hagree : A w) :
    Sound c w₀ (PasswordDone c username password installID) A i (fun _ _ => True) (passwordLogin c d password installID) w := by
  unfold passwordLogin
  split
  · trivial
  rename_i hverifies
  obtain ⟨hhash, hcompare⟩ := not_or.mp hverifies
  have hleft : d.accountID ≠ "" → Issuable c installID → PasswordDone c username password installID w := by
    refine fun haccount hissuable => ⟨haccepts, hissuable, d, hd, hprovider, hsubject, haccount, fun p h => ?_⟩
    cases h
    exact ⟨hhash, not_not.mp hcompare⟩
  refine Pool.Safe.bind ((sound_issueToken hA passwordDone_grows hleft hagree).mono fun _ r _ => ?_)
  cases r <;> trivial

theorem sound_passwordAuthenticateCore (request : PasswordAuthenticateRequest) (hagree : A w) :
    Sound c w₀ (PasswordDone c (trimSpace request.username) request.password (trimSpace request.installID)) A i
      (fun _ _ => True) (passwordAuthenticateCore c request) w := by
  have hR : Lasts (PasswordDone c (trimSpace request.username) request.password (trimSpace request.installID)) :=
    fun w w' hd _ => passwordDone_grows w w' hd
  unfold passwordAuthenticateCore
  dsimp only
  split
  · trivial
  rename_i haccepts
  have haccepts : acceptsCredentials (trimSpace request.username) request.password (trimSpace request.installID) = true := by
    simpa using haccepts
  simp only [perform, Prog.perform_bind, Prog.pure_eq]
  refine sound_call (does_findIdentity hA hR) fun r w hl hr => ?_
  have hagree := hl.agree hagree
  cases r with
  | ok d =>
    obtain ⟨hd, hprovider, hsubject⟩ := hr d rfl
    exact sound_passwordLogin hA haccepts hd hprovider hsubject hagree
  | error err =>
    dsimp only
    split
    · trivial
    refine Pool.Safe.bind ((sound_createAccountAndToken hA hR hagree ?_).later.mono fun w r hr => ?_)
    · refine fun d w' hd hprovider hsubject haccount hhash hissuable =>
        ⟨haccepts, hissuable, d, hd, hprovider, hsubject, haccount, fun p h => ?_⟩
      cases h
      -- an empty password has been refused above
      exact hhash fun hempty => by simp [acceptsCredentials, hempty] at haccepts
    have hagree := hr.1.agree hagree
    cases r with
    | ok made => trivial
    | error createErr =>
      refine sound_call (does_findIdentity hA hR) fun r w hl hr => ?_
      cases r with
      | error err => trivial
      | ok d =>
        obtain ⟨hd, hprovider, hsubject⟩ := hr d rfl
        exact sound_passwordLogin hA haccepts hd hprovider hsubject (hl.agree hagree)

theorem sound_rotate {id tokenHash : String} {now : Time} {t : RefreshToken} (hmade : Made c t w) (hheld : Held id tokenHash w)
    (hagree : A w) : Sound c w₀ (Spent tokenHash) A i (fun _ _ => True) (rotate id now t) w := by
  unfold rotate
  split
  · trivial
  simp only [perform, Prog.perform_bind, Prog.pure_eq]
  refine sound_quiet hA (lasts_spent tokenHash) rfl rfl fun today w' hl => ?_
  split
  · trivial
  · rename_i document hdocument
    rw [refreshTokenDocumentFromDomain_ok hdocument]
    exact (does_rotateTx hA).call (fun _ _ _ => Later.trans)
      (fun _ _ h hl => ⟨h.1.later hl, h.2.1.later hl, hl.agree h.2.2⟩)
      ⟨hmade.later hl, hheld.later hl, hl.agree hagree⟩ fun _ _ _ _ => trivial

theorem sound_refreshAuthenticateCore (request : RefreshAuthenticateRequest) (hagree : A w) :
    Sound c w₀ (Spent (c.authHashToken request.refreshToken)) A i (fun _ _ => True) (refreshAuthenticateCore c request) w := by
  have hR := lasts_spent (c.authHashToken request.refreshToken)
  unfold refreshAuthenticateCore
  simp only [perform, Prog.perform_bind]
  refine sound_quiet hA hR rfl rfl fun now w hl => sound_call (does_findValid hA hR) fun r w hl' hr => ?_
  have hagree := hl'.agree (hl.agree hagree)
  cases r with
  | error err => trivial
  | ok old =>
    dsimp only
    split
    · trivial
    refine Pool.Safe.bind ((sound_newToken hA hR old.accountID request.installID).later.mono fun w r hmade => ?_)
    cases r with
    | error err => trivial
    | ok made =>
      have hheld := (hr old rfl).later hmade.1
      refine Pool.Safe.bind ((sound_rotate hA (hmade.2 _ rfl).1 hheld (hmade.1.agree hagree)).mono fun _ r _ => ?_)
      cases r <;> trivial

theorem sound_revokeRefreshTokenCore (request : RevokeRefreshTokenRequest) (hagree : A w) :
    Sound c w₀ (Spent (c.authHashToken request.refreshToken)) A i (fun _ _ => True) (revokeRefreshTokenCore c request) w := by
  have hR := lasts_spent (c.authHashToken request.refreshToken)
  unfold revokeRefreshTokenCore
  simp only [perform, Prog.perform_bind]
  refine sound_quiet hA hR rfl rfl fun now w hl => sound_call (does_findValid hA hR) fun r w hl' hr => ?_
  have hagree := hl'.agree (hl.agree hagree)
  cases r with
  | error err => trivial
  | ok old =>
    dsimp only
    split
    · trivial
    refine sound_quiet hA hR rfl rfl fun now w hl => ?_
    refine (does_revoke hA).call (fun _ _ _ => Later.trans) (fun _ _ h hl => ⟨h.1.later hl, hl.agree h.2⟩)
      ⟨(hr old rfl).later hl, hl.agree hagree⟩ fun r _ _ _ => ?_
    cases r <;> trivial

theorem sound_core (request : Request) (hagree : A w) :
    Sound c w₀ (Executed c request) A i (fun _ _ => True) (request.core c) w := by
  cases request with
  | guest r => apply sound_guestAuthenticateCore hA r hagree
  | password r => apply sound_passwordAuthenticateCore hA r hagree
  | refresh r => apply sound_refreshAuthenticateCore hA r hagree
  | revoke r => apply sound_revokeRefreshTokenCore hA r hagree
  | clientRefresh r =>
    have h : Sound c w₀ (Spent (c.authHashToken r.refreshToken)) A i (fun _ _ => True) (refreshAuthenticateCore c _) w :=
      sound_refreshAuthenticateCore hA
        { refreshToken := r.refreshToken, installID := r.installID, idempotencyKey := r.idempotencyKey } hagree
    refine Pool.Safe.bind (h.mono fun _ r _ => ?_)
    cases r <;> trivial
  | clientLogin r =>
    obtain ⟨provider, _, installID, username, password, key⟩ := r
    cases provider with
    | unspecified => trivial
    | provider p =>
      cases p with
      | guest =>
        have h : Sound c w₀ (GuestDone c (trimSpace installID)) A i (fun _ _ => True)
            (guestAuthenticateCore c _) w :=
          sound_guestAuthenticateCore hA { installID, idempotencyKey := key } hagree
        refine Pool.Safe.bind (h.mono fun _ r _ => ?_)
        cases r <;> trivial
      | password =>
        have h : Sound c w₀ (PasswordDone c (trimSpace username) password (trimSpace installID)) A i (fun _ _ => True)
            (passwordAuthenticateCore c _) w :=
          sound_passwordAuthenticateCore hA { username, password, installID, idempotencyKey := key } hagree
        refine Pool.Safe.bind (h.mono fun _ r _ => ?_)
        cases r <;> trivial
      | steam | apple | google | wechat => trivial

end

/-! ## The keyed request -/

section
variable (key operation requestHash)

def facts : Facts World where
  time _ _ := True
  read d w := d.operation = operation → d.requestHash = requestHash → Agree key operation requestHash w
  drawn _ _ := True
  owned := Agree key operation requestHash
  done _ _ := True
  fine _ _ := True

end

theorem agree_records (w w' : World) (h : w'.records = w.records) (hagree : Agree key operation requestHash w) :
    Agree key operation requestHash w' := fun d hd => hagree d (h ▸ hd)

section
variable (hR : Lasts R)
include hR

theorem does_record {gives : Ans cmd → World → Prop} (hc : cmd.sparesAuth)
    (hins : ∀ d, cmd = .insertRecord d → d.operation = operation ∧ d.requestHash = requestHash)
    (hg : ∀ e w r w', P w → exec c i e w cmd = some (r, w') → gives r w') :
    Does c w₀ R (Agree key operation requestHash) i cmd P gives :=
  does_quiet hR hc (fun _ _ _ _ _ hx hagree => agree_exec hagree hx hins) hg

theorem does_findRecord {now : Time} :
    Does c w₀ R (Agree key operation requestHash) i (.findRecord key now) P fun r w =>
      ∀ d, r = .ok d → (facts key operation requestHash).read d w := by
  refine does_record hR rfl (fun _ h => by cases h) fun e w r w' _ hx d hr hoperation hhash => ?_
  obtain ⟨rfl, hok⟩ := exec_findRecord hx
  obtain ⟨hmem, rfl, -⟩ := findRecord_ok (hok d hr)
  exact agree_of_mem hmem hoperation hhash

theorem does_insertRecord {d : IdempotencyRecord} (hkey : d.key = key) (hoperation : d.operation = operation)
    (hhash : d.requestHash = requestHash) :
    Does c w₀ R (Agree key operation requestHash) i (.insertRecord d) P fun r w =>
      r = .ok → Agree key operation requestHash w := by
  refine does_record hR rfl (fun d' h => ?_) fun e w r w' _ hx hr => ?_
  · cases h
    exact ⟨hoperation, hhash⟩
  · subst hr hkey
    rcases exec_cases hx with hx | ⟨text, hfail, -⟩
    · simp only [World.answer] at hx
      split at hx
      · rename_i records hins
        cases hx
        exact agree_of_mem (w := { w.tick e.delay with records }) ((Coll.mem_insertOne hins d).mpr (.inl rfl)) hoperation hhash
      · cases hx
    · cases hfail

theorem rules : (facts key operation requestHash).Rules (exec c) (fun i _ _ _ => i = 0)
    (Inv c w₀ R (Agree key operation requestHash)) (Later (Agree key operation requestHash)) i c key operation requestHash where
  refl := Later.refl
  trans := fun _ _ _ => Later.trans
  time_later := fun _ _ _ _ _ => trivial
  read_later := fun _ _ _ h hl hoperation hhash => hl.agree (h hoperation hhash)
  drawn_later := fun _ _ _ _ _ => trivial
  done_later := fun _ _ _ _ _ => trivial
  fine_later := fun _ _ _ _ _ => trivial
  error := fun _ _ => trivial
  replay := fun _ _ _ _ => trivial
  now := does_record hR rfl (fun _ h => by cases h) fun _ _ _ _ _ _ => trivial
  newUUID := (does_newUUID agree_records hR).mono fun _ _ _ _ _ => trivial
  findRecord := fun _ => does_findRecord hR
  insertRecord := fun _ _ => does_insertRecord hR rfl rfl rfl
  deleteStale := fun _ => does_record hR rfl (fun _ h => by cases h) fun _ _ _ _ _ _ => trivial
  claim := fun current _ _ _ hoperation hhash => by
    refine does_record hR rfl (fun _ h => by cases h) fun e w r w' hP hx d _ => ?_
    exact agree_exec (hP.1 hoperation hhash) hx fun _ h => by cases h
  complete := fun _ _ _ => does_record hR rfl (fun _ h => by cases h) fun _ _ _ _ _ _ _ => trivial
  tame := by
    intro cmd hcmd
    cases cmd with
    | release _ _ | renew _ _ _ _ | ticks | acquireLock _ _ | lock _ | unlock _ | releaseLock _ _ _ =>
      exact does_record hR rfl (fun _ h => by cases h) fun _ _ _ _ _ _ => trivial
    | _ => cases hcmd

end

theorem lasts_executed (request : Request) : Lasts (Executed c request) := by
  intro w w' hd ht h
  cases request with
  | guest r => exact guestDone_grows w w' hd h
  | password r => exact passwordDone_grows w w' hd h
  | refresh r | revoke r | clientRefresh r => exact lasts_spent _ w w' hd ht h
  | clientLogin r =>
    obtain ⟨provider, _, installID, username, password, key⟩ := r
    cases provider with
    | unspecified => exact h
    | provider p =>
      cases p with
      | guest => exact guestDone_grows w w' hd h
      | password => exact passwordDone_grows w w' hd h
      | steam | apple | google | wechat => exact h

theorem sound_withIdempotency {request : Request} (hkey : trimSpace request.idempotencyKey ≠ "") (site : Site) :
    Sound c w₀ (Executed c request)
      (Agree (trimSpace request.idempotencyKey) request.operation (c.digest (clearIdempotencyKey request))) i
      (fun _ _ => True)
      (withIdempotency c site request.idempotencyKey request.operation request (request.core c)) w := by
  apply (Facts.Rules.withIdempotency hkey (rules (lasts_executed request)) fun v hv => ?_).mono
  · exact fun _ _ _ => trivial
  · apply (sound_core agree_records request hv).mono
    exact fun _ _ _ _ _ => trivial

theorem crash_run {calls : List Call} {site : Site} {payload : Payload} {request : Request}
    (hcall : calls[0]? = some (.serve site payload)) (hrequest : payload.request = some request)
    (hkey : trimSpace request.idempotencyKey ≠ "") (hsane : Sane c w) {first : List (Nat × Env)} (hfirst : ∀ a ∈ first, a.1 = 0) :
    Inv c w (Executed c request)
      (Agree (trimSpace request.idempotencyKey) request.operation (c.digest (clearIdempotencyKey request)))
      (Pool.run (exec c) (State.init c w calls) first).world := by
  let A := Agree (trimSpace request.idempotencyKey) request.operation (c.digest (clearIdempotencyKey request))
  have hstart : Pool.Good (exec c) (fun i _ _ _ => i = 0) (Inv c w (Executed c request) A) (fun _ => Later A)
      (fun _ _ _ => True) (State.init c w calls) := by
    refine Pool.good_start (fun _ => Later.refl) ⟨hsane, .inl rfl⟩ fun i prog hprog => ?_
    by_cases hi : i = 0
    · subst hi
      obtain ⟨call, hcall', rfl⟩ := Option.map_eq_some_iff.mp (List.getElem?_map ▸ hprog)
      obtain rfl : call = .serve site payload := Option.some.inj (hcall'.symm.trans hcall)
      rcases serve_cases c site payload with ⟨err, hserve⟩ | ⟨request', hrequest', hserve⟩
      · rw [Call.handler, hserve]
        trivial
      · obtain rfl : request' = request := Option.some.inj (hrequest'.symm.trans hrequest)
        rw [Call.handler, hserve]
        apply Pool.Safe.bind
        apply (sound_withIdempotency hkey site).mono
        exact fun _ _ _ => trivial
    · -- the others do not move
      cases prog with
      | ret r => trivial
      | call cmd k => exact fun _ _ _ _ _ _ h => absurd h hi
  have halong : Pool.Along (exec c) (Pool.Issues fun i _ _ _ => i = 0) (State.init c w calls) first :=
    Pool.along_of_mem (exec c) first _ fun _ a ha _ _ _ => hfirst a ha
  exact (Pool.safe_run (fun _ => Later.refl) (fun _ _ _ _ => Later.trans) hstart halong).world

/-! ## While nobody asks -/

structure Shrinks (w w' : World) : Prop where
  identities : w'.identities = w.identities
  drawn : w'.drawn = w.drawn
  tokens : ∀ t ∈ w'.tokens, t ∈ w.tokens
  records : ∀ d ∈ w'.records, d ∈ w.records

theorem Shrinks.refl (w : World) : Shrinks w w := ⟨rfl, rfl, fun _ h => h, fun _ h => h⟩

theorem Shrinks.trans {w'' : World} (h : Shrinks w w') (h' : Shrinks w' w'') : Shrinks w w'' :=
  ⟨h'.identities.trans h.identities, h'.drawn.trans h.drawn, fun t ht => h.tokens t (h'.tokens t ht),
    fun d hd => h.records d (h'.records d hd)⟩

theorem sane_shrinks (h : Sane c w) (hs : Shrinks w w') : Sane c w' :=
  ⟨fun t ht => hs.drawn ▸ h.id t (hs.tokens t ht), fun t ht => hs.drawn ▸ h.hash t (hs.tokens t ht)⟩

theorem executed_shrinks {request : Request} (h : Executed c request w) (hs : Shrinks w w') : Executed c request w' :=
  lasts_executed request w w' (fun _ h => hs.identities ▸ h) hs.tokens h

end Crash

def Call.isBackground : Call → Bool
  | .serve _ _ => false
  | _ => true

namespace Crash

def Cmd.isBackground : Cmd → Bool
  | .now | .recoverExpired _ | .expireToken _ | .expireRecord _ => true
  | _ => false

theorem shrinks_exec (hcmd : Cmd.isBackground cmd) {r : Ans cmd} (h : exec c i e w cmd = some (r, w')) : Shrinks w w' := by
  rcases exec_effect h with rfl | ⟨r₀, hx⟩
  · exact ⟨rfl, rfl, fun _ h => h, fun _ h => h⟩
  cases cmd with
  | now =>
    cases hx
    exact ⟨rfl, rfl, fun _ h => h, fun _ h => h⟩
  | recoverExpired now =>
    cases hx
    exact ⟨rfl, rfl, fun _ h => h, fun _ h => (Coll.mem_deleteMany.mp h).1⟩
  | expireToken id =>
    cases hx
    exact ⟨rfl, rfl, fun _ h => Coll.mem_of_mem_deleteOne h, fun _ h => h⟩
  | expireRecord key =>
    cases hx
    exact ⟨rfl, rfl, fun _ h => h, fun _ h => Coll.mem_of_mem_deleteOne h⟩
  | _ => cases hcmd

theorem background_handler {call : Call} (h : call.isBackground) :
    (call.handler c).Uses fun cmd => Cmd.isBackground cmd = true := by
  cases call with
  | serve site payload => cases h
  | start => exact ⟨rfl, fun _ => ⟨rfl, fun _ => trivial⟩⟩
  | expireToken id => exact ⟨rfl, fun _ => trivial⟩
  | expireRecord key => exact ⟨rfl, fun _ => trivial⟩

theorem shrinks_run {calls : List Call} (hcalls : ∀ i call, 2 ≤ i → calls[i]? = some call → call.isBackground)
    (first : List (Nat × Env)) {between : List (Nat × Env)} (hbetween : ∀ a ∈ between, 2 ≤ a.1) :
    Shrinks (Pool.run (exec c) (State.init c w calls) first).world
      (Pool.run (exec c) (State.init c w calls) (first ++ between)).world := by
  have hinit : (State.init c w calls).AllUse fun i cmd => 2 ≤ i → Cmd.isBackground cmd = true := by
    refine Pool.forall_map fun i call hcall => ?_
    by_cases hi : 2 ≤ i
    · exact (background_handler (hcalls i call hi hcall)).mono fun _ h _ => h
    · exact (Prog.uses_true _).mono fun _ _ h => absurd h hi
  have hissues : Pool.Along (exec c) (Pool.Issues fun i _ _ cmd => 2 ≤ i → Cmd.isBackground cmd = true)
      (Pool.run (exec c) (State.init c w calls) first) between := Pool.along_uses between (Pool.uses_run first hinit)
  have hmoves : Pool.Along (exec c) (fun _ a => 2 ≤ a.1) (Pool.run (exec c) (State.init c w calls) first) between :=
    Pool.along_of_mem (exec c) between _ fun _ => hbetween
  rw [Pool.run_append]
  refine Pool.inv_run (G := fun _ _ _ cmd => Cmd.isBackground cmd = true) (fun i e v cmd r v' hs hcmd hx => ?_)
    (Shrinks.refl _) ((hissues.and hmoves).mono fun s a h cmd k hp => h.1 cmd k hp h.2)
  exact hs.trans (shrinks_exec hcmd hx)

end Crash

end GameServer.UserCenter
