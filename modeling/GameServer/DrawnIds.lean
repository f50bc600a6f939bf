import GameServer.CrashSound

/-!
# The user center: ids in the store were drawn

In every run, with keys or without, the ids of accounts, identities and tokens
and the secrets of tokens are strings that some call has drawn. So what is drawn
next is new to the store.
-/

namespace GameServer.UserCenter

structure Sourced (c : DomainAuthComponent) (w : World) : Prop where
  accounts : ∀ a ∈ w.accounts, ∃ i, (i, a.id) ∈ w.drawn
  identities : ∀ d ∈ w.identities, ∃ i, (i, d.id) ∈ w.drawn
  tokens : ∀ t ∈ w.tokens, Crash.Made c t w

namespace Sourced

attribute [local irreducible] trimSpace

variable {c : DomainAuthComponent} {i : Nat} {e : Env} {w w' : World} {cmd : Cmd} {α : Type} {post : World → α → Prop}

def Grows (w w' : World) : Prop := ∀ x ∈ w.drawn, x ∈ w'.drawn

theorem Grows.refl (w : World) : Grows w w := fun _ h => h

theorem Grows.trans {w'' : World} (h : Grows w w') (h' : Grows w' w'') : Grows w w'' := fun x hx => h' x (h x hx)

theorem made_grows {t : RefreshToken} (h : Crash.Made c t w) (hg : Grows w w') : Crash.Made c t w' := by
  obtain ⟨⟨i, hid⟩, j, raw, hraw, hhash⟩ := h
  exact ⟨⟨i, hg _ hid⟩, j, raw, hg _ hraw, hhash⟩

theorem of_same (h : Sourced c w) (hs : SameAuth w w') (hg : Grows w w') : Sourced c w' := by
  refine ⟨fun a ha => ?_, fun d hd => ?_, fun t ht => made_grows (h.tokens t (hs.tokens ▸ ht)) hg⟩
  · obtain ⟨i, hi⟩ := h.accounts a (hs.accounts ▸ ha)
    exact ⟨i, hg _ hi⟩
  · obtain ⟨i, hi⟩ := h.identities d (hs.identities ▸ hd)
    exact ⟨i, hg _ hi⟩

theorem of_tokens (h : Sourced c w) (hw : w' = { w with tokens := w'.tokens })
    (ht : ∀ t ∈ w'.tokens, Crash.Made c t w ∨ ∃ t₀ ∈ w.tokens, t = { t₀ with revokedAt := t.revokedAt }) : Sourced c w' := by
  have hmade : ∀ t ∈ w'.tokens, Crash.Made c t w := by
    intro t hmem
    rcases ht t hmem with hm | ⟨t₀, ht₀, heq⟩
    · exact hm
    · rw [heq]
      exact h.tokens t₀ ht₀
  have hg : Grows w w' := by
    rw [hw]
    exact Grows.refl w
  refine ⟨?_, ?_, fun t hmem => made_grows (hmade t hmem) hg⟩
  · rw [hw]
    exact h.accounts
  · rw [hw]
    exact h.identities

def From (c : DomainAuthComponent) (w : World) : Cmd → Prop
  | .createAccountTx a d t => (∃ i, (i, a.id) ∈ w.drawn) ∧ (∃ i, (i, d.id) ∈ w.drawn) ∧ Crash.Made c t w
  | .insertToken t | .rotateTx _ _ t => Crash.Made c t w
  | _ => True

theorem From.made {t : RefreshToken} (h : From c w cmd) (ht : cmd.token? = some t) : Crash.Made c t w := by
  cases cmd with
  | createAccountTx a d t =>
    cases ht
    exact h.2.2
  | insertToken t | rotateTx _ _ t =>
    cases ht
    exact h
  | _ => cases ht

theorem draw (h : Sourced c w) {id : String} {r : Except GoErr String} (hx : w.draw i id = some (r, w')) :
    Sourced c w' ∧ Grows w w' := by
  obtain ⟨-, -, -, rfl⟩ := draw_cases hx
  have hg : Grows w { w with drawn := (i, id) :: w.drawn } := fun _ hy => List.mem_cons_of_mem _ hy
  exact ⟨h.of_same ⟨rfl, rfl, rfl⟩ hg, hg⟩

theorem answer (h : Sourced c w) (hfrom : From c w cmd) {r : Ans cmd} (hx : w.answer c i cmd e = some (r, w')) :
    Sourced c w' ∧ Grows w w' := by
  cases hc : cmd.sparesAuth with
  | true =>
    have hsame := answer_sparesAuth hc hx
    have hg : Grows w w' := by
      rw [hsame]
      exact Grows.refl w
    refine ⟨h.of_same ⟨?_, ?_, ?_⟩ hg, hg⟩ <;> rw [hsame]
  | false =>
    cases cmd with
    | newUUID | readRandom => exact h.draw hx
    | createAccountTx a d t =>
      rcases commit_cases (Option.some.inj hx) with ⟨_, _, _, rfl⟩ | ⟨hok, _⟩
      · exact ⟨h, Grows.refl w'⟩
      obtain ⟨heq, htokens⟩ := createAccountTx_ok hok
      obtain ⟨haccounts, -, hidentities⟩ := createAccountTx_docs hok
      have hdrawn : w'.drawn = w.drawn := by rw [heq]
      have hg : Grows w w' := fun x hx => hdrawn ▸ hx
      refine ⟨⟨fun x hx => ?_, fun x hx => ?_, fun x hx => ?_⟩, hg⟩
      · rw [hdrawn]
        rcases (haccounts x).mp hx with rfl | hx
        · exact hfrom.1
        · exact h.accounts x hx
      · rw [hdrawn]
        rcases (hidentities x).mp hx with rfl | hx
        · exact hfrom.2.1
        · exact h.identities x hx
      · rcases (htokens x).mp hx with rfl | hx
        · exact made_grows hfrom.2.2 hg
        · exact made_grows (h.tokens x hx) hg
    | insertToken _ | revoke _ _ | rotateTx _ _ _ | expireToken _ =>
      obtain ⟨heq, htokens⟩ := answer_onTokens rfl hx
      refine ⟨h.of_tokens heq fun t ht => (htokens t ht).imp_left hfrom.made, ?_⟩
      rw [heq]
      exact Grows.refl w
    | _ => cases hc

theorem exec (h : Sourced c w) (hfrom : From c w cmd) {r : Ans cmd} (hx : UserCenter.exec c i e w cmd = some (r, w')) :
    Sourced c w' ∧ Grows w w' := by
  have htick : Sourced c (w.tick e.delay) := h.of_same ⟨rfl, rfl, rfl⟩ (Grows.refl w)
  rcases exec_effect hx with rfl | ⟨r₀, hx⟩
  · exact ⟨htick, Grows.refl w⟩
  · refine htick.answer (w := w.tick e.delay) ?_ hx
    cases cmd <;> exact hfrom

/-! ## Handlers -/

section
variable (c)

abbrev Sound (i : Nat) (post : World → α → Prop) (prog : Prog Ans α) (w : World) : Prop :=
  Pool.Safe (UserCenter.exec c) (fun _ _ _ _ => True) (Sourced c) (fun _ => Grows) i post prog w

abbrev Does (i : Nat) (cmd : Cmd) (pre : World → Prop) (gives : Ans cmd → World → Prop) : Prop :=
  Pool.Does (UserCenter.exec c) (fun _ _ _ _ => True) (Sourced c) (fun _ => Grows) i cmd pre gives

end

theorem does_from : Does c i cmd (From c · cmd) fun _ _ => True := by
  intro e w r w' hi hfrom _ hx
  obtain ⟨hi', hg⟩ := hi.exec hfrom hx
  exact ⟨hi', fun _ => hg, trivial⟩

theorem From.grows (h : From c w cmd) (hg : Grows w w') : From c w' cmd := by
  cases cmd with
  | createAccountTx a d t =>
    obtain ⟨⟨j, hj⟩, ⟨k, hk⟩, ht⟩ := h
    exact ⟨⟨j, hg _ hj⟩, ⟨k, hg _ hk⟩, made_grows ht hg⟩
  | insertToken t | rotateTx _ _ t => exact made_grows h hg
  | _ => trivial

theorem sound_call {k : Ans cmd → Prog Ans α} (hfrom : From c w cmd) (hk : ∀ r w', Grows w w' → Sound c i post (k r) w') :
    Sound c i post (.call cmd k) w :=
  does_from.call (fun _ _ _ => Grows.trans) (fun _ _ => From.grows) hfrom fun r w' hg _ => hk r w' hg

theorem sound_draw (string? : Ans cmd → Except GoErr String)
    (hdraws : ∀ e w r w', UserCenter.exec c i e w cmd = some (r, w') → Draws i w w' (string? r)) {k : Ans cmd → Prog Ans α}
    (hfrom : ∀ w, From c w cmd)
    (hk : ∀ r w', Grows w w' → (∀ x, string? r = .ok x → (i, x) ∈ w'.drawn) → Sound c i post (k r) w') :
    Sound c i post (.call cmd k) w := by
  have hdoes : Does c i cmd (fun _ => True) fun r w => ∀ x, string? r = .ok x → (i, x) ∈ w.drawn := by
    intro e w r w' hi _ _ hx
    obtain ⟨hi', hg⟩ := hi.exec (hfrom w) hx
    exact ⟨hi', fun _ => hg, fun _ => (hdraws e w r w' hx).mem⟩
  exact hdoes.call (fun _ _ _ => Grows.trans) (fun _ _ _ _ => trivial) trivial hk

theorem sound_newUUID {k : Except GoErr String → Prog Ans α}
    (hk : ∀ r w', Grows w w' → (∀ x, r = .ok x → (i, x) ∈ w'.drawn) → Sound c i post (k r) w') :
    Sound c i post (.call .newUUID k) w := sound_draw id (fun _ _ _ _ => exec_newUUID) (fun _ => trivial) hk

theorem sound_readRandom {k : Except GoErr String → Prog Ans α}
    (hk : ∀ r w', Grows w w' → (∀ x, r = .ok x → (i, x) ∈ w'.drawn) → Sound c i post (k r) w') :
    Sound c i post (.call .readRandom k) w := sound_draw id (fun _ _ _ _ => exec_readRandom) (fun _ => trivial) hk

theorem sound_bind {β : Type} {p : Prog Ans α} {f : α → Prog Ans β} (hp : Sound c i (fun _ _ => True) p w)
    (hf : ∀ a w, Sound c i (fun _ _ => True) (f a) w) : Sound c i (fun _ _ => True) (p >>= f) w :=
  Pool.Safe.bind (hp.mono fun w a _ => hf a w)

theorem sound_newToken (accountID installID : String) :
    Sound c i (fun w r => ∀ made, r = .ok made → Crash.Made c made.1 w) (newToken c accountID installID) w := by
  unfold newToken
  split
  · intro _ h
    cases h
  simp only [perform, Prog.perform_bind, Prog.pure_eq]
  refine sound_newUUID fun r w _ hid => ?_
  cases r with
  | error err =>
    intro _ h
    cases h
  | ok tokenID =>
    refine sound_readRandom fun r w hg hraw => ?_
    have hid := hg _ (hid tokenID rfl)
    cases r with
    | error err =>
      intro _ h
      cases h
    | ok raw =>
      refine sound_call trivial fun now w hg made h => ?_
      cases h
      exact ⟨⟨i, hg _ hid⟩, i, raw, hg _ (hraw raw rfl), rfl⟩

theorem sound_createToken {t : RefreshToken} (ht : Crash.Made c t w) : Sound c i (fun _ _ => True) (createToken t) w := by
  simp only [createToken, perform, Prog.perform_bind]
  refine sound_call trivial fun now w hg => ?_
  cases hdoc : refreshTokenDocumentFromDomain t now with
  | error err => trivial
  | ok document =>
    rw [refreshTokenDocumentFromDomain_ok hdoc]
    exact sound_call (made_grows ht hg) fun _ _ _ => trivial

theorem sound_rotate {id : String} {now : Time} {t : RefreshToken} (ht : Crash.Made c t w) :
    Sound c i (fun _ _ => True) (rotate id now t) w := by
  unfold rotate
  split
  · trivial
  simp only [perform, Prog.perform_bind]
  refine sound_call trivial fun today w hg => ?_
  cases hdoc : refreshTokenDocumentFromDomain t today with
  | error err => trivial
  | ok document =>
    rw [refreshTokenDocumentFromDomain_ok hdoc]
    exact sound_call (made_grows ht hg) fun _ _ _ => trivial

theorem sound_issueToken (accountID installID : String) : Sound c i (fun _ _ => True) (issueToken c accountID installID) w := by
  refine Pool.Safe.bind ((sound_newToken accountID installID).mono fun w r hr => ?_)
  cases r with
  | error err => trivial
  | ok made =>
    refine sound_bind (sound_createToken (hr made rfl)) fun r w => ?_
    cases r <;> trivial

theorem sound_createAccountAndToken (provider : AuthProvider) (subject password installID : String) :
    Sound c i (fun _ _ => True) (createAccountAndToken c provider subject password installID) w := by
  simp only [createAccountAndToken, perform, Prog.perform_bind]
  refine sound_newUUID fun r w _ haccount => ?_
  cases r with
  | error err => trivial
  | ok accountID =>
    refine sound_newUUID fun r w hg hidentity => ?_
    have haccount := hg _ (haccount accountID rfl)
    cases r with
    | error err => trivial
    | ok identityID =>
      have hhash : Sound c i (fun w' _ => Grows w w') (hashPassword password) w := by
        unfold hashPassword
        split
        · exact Grows.refl w
        simp only [perform, Prog.perform_bind]
        refine sound_call trivial fun r w hg => ?_
        cases r <;> exact hg
      refine Pool.Safe.bind (hhash.mono fun w r hg => ?_)
      have haccount := hg _ haccount
      have hidentity := hg _ (hidentity identityID rfl)
      cases r with
      | error err => trivial
      | ok passwordHash =>
        refine sound_call trivial fun now w hg => ?_
        have haccount := hg _ haccount
        have hidentity := hg _ hidentity
        refine Pool.Safe.bind (((sound_newToken accountID installID).later Grows.refl fun _ _ _ => Grows.trans).mono fun w r hr => ?_)
        cases r with
        | error err => trivial
        | ok made =>
          refine sound_call ⟨⟨i, hr.1 _ haccount⟩, ⟨i, hr.1 _ hidentity⟩, hr.2 made rfl⟩ fun r w _ => ?_
          cases r <;> trivial

theorem sound_guestLogin (identity : Identity) (installID : String) :
    Sound c i (fun _ _ => True) (guestLogin c identity installID) w := by
  refine sound_bind (sound_issueToken _ _) fun r w => ?_
  cases r <;> trivial

theorem sound_guestAuthenticateCore (r : GuestAuthenticateRequest) :
    Sound c i (fun _ _ => True) (guestAuthenticateCore c r) w := by
  simp only [guestAuthenticateCore, perform, Prog.perform_bind]
  refine sound_call trivial fun found w _ => ?_
  cases found with
  | ok identity => exact sound_guestLogin identity _
  | error err =>
    dsimp only
    split
    · trivial
    refine sound_bind (sound_createAccountAndToken _ _ _ _) fun created w => ?_
    cases created with
    | ok created => trivial
    | error err =>
      refine sound_call trivial fun found w _ => ?_
      cases found with
      | error err => trivial
      | ok identity => exact sound_guestLogin identity _

theorem sound_passwordLogin (identity : Identity) (password installID : String) :
    Sound c i (fun _ _ => True) (passwordLogin c identity password installID) w := by
  unfold passwordLogin
  split
  · trivial
  refine sound_bind (sound_issueToken _ _) fun r w => ?_
  cases r <;> trivial

theorem sound_passwordAuthenticateCore (r : PasswordAuthenticateRequest) :
    Sound c i (fun _ _ => True) (passwordAuthenticateCore c r) w := by
  unfold passwordAuthenticateCore
  dsimp only
  split
  · trivial
  simp only [perform, Prog.perform_bind]
  refine sound_call trivial fun found w _ => ?_
  cases found with
  | ok identity => exact sound_passwordLogin identity _ _
  | error err =>
    dsimp only
    split
    · trivial
    refine sound_bind (sound_createAccountAndToken _ _ _ _) fun created w => ?_
    cases created with
    | ok created => trivial
    | error err =>
      refine sound_call trivial fun found w _ => ?_
      cases found with
      | error err => trivial
      | ok identity => exact sound_passwordLogin identity _ _

theorem sound_refreshAuthenticateCore (r : RefreshAuthenticateRequest) :
    Sound c i (fun _ _ => True) (refreshAuthenticateCore c r) w := by
  simp only [refreshAuthenticateCore, perform, Prog.perform_bind]
  refine sound_call trivial fun now w _ => sound_call trivial fun found w _ => ?_
  cases found with
  | error err => trivial
  | ok token =>
    dsimp only
    split
    · trivial
    refine Pool.Safe.bind ((sound_newToken _ _).mono fun w r hr => ?_)
    cases r with
    | error err => trivial
    | ok made =>
      refine sound_bind (sound_rotate (hr made rfl)) fun r w => ?_
      cases r <;> trivial

theorem sound_revokeRefreshTokenCore (r : RevokeRefreshTokenRequest) :
    Sound c i (fun _ _ => True) (revokeRefreshTokenCore c r) w := by
  simp only [revokeRefreshTokenCore, perform, Prog.perform_bind]
  refine sound_call trivial fun now w _ => sound_call trivial fun found w _ => ?_
  cases found with
  | error err => trivial
  | ok token =>
    dsimp only
    split
    · trivial
    refine sound_call trivial fun now w _ => sound_call trivial fun r w _ => ?_
    cases r <;> trivial

theorem sound_core (request : Request) (w : World) : Sound c i (fun _ _ => True) (request.core c) w := by
  cases request with
  | guest r => exact sound_guestAuthenticateCore r
  | password r => exact sound_passwordAuthenticateCore r
  | refresh r => exact sound_refreshAuthenticateCore r
  | revoke r => exact sound_revokeRefreshTokenCore r
  | clientRefresh r =>
    refine sound_bind (sound_refreshAuthenticateCore _) fun r w => ?_
    cases r <;> trivial
  | clientLogin r =>
    simp only [Request.core, clientLoginAuthenticateCore]
    split
    · refine sound_bind (sound_guestAuthenticateCore _) fun r w => ?_
      cases r <;> trivial
    · refine sound_bind (sound_passwordAuthenticateCore _) fun r w => ?_
      cases r <;> trivial
    · trivial

/-! ## Runs -/

def noFacts : Facts World where
  time _ _ := True
  read _ _ := True
  drawn _ _ := True
  owned _ := True
  done _ _ := True
  fine _ _ := True

theorem rules (key : String) (operation : Operation) (requestHash : String) :
    noFacts.Rules (UserCenter.exec c) (fun _ _ _ _ => True) (Sourced c) Grows i c key operation requestHash := by
  have hdoes : ∀ (cmd : Cmd) (P : World → Prop) (gives : Ans cmd → World → Prop), (∀ w, From c w cmd) → (∀ r w, gives r w) →
      Does c i cmd P gives := by
    intro cmd P gives hfrom hgives e w r w' hi _ _ hx
    obtain ⟨hi', hg⟩ := hi.exec (hfrom w) hx
    exact ⟨hi', fun _ => hg, hgives r w'⟩
  exact
    { refl := Grows.refl
      trans := fun _ _ _ => Grows.trans
      time_later := fun _ _ _ _ _ => trivial
      read_later := fun _ _ _ _ _ => trivial
      drawn_later := fun _ _ _ _ _ => trivial
      done_later := fun _ _ _ _ _ => trivial
      fine_later := fun _ _ _ _ _ => trivial
      error := fun _ _ => trivial
      replay := fun _ _ _ _ => trivial
      now := hdoes _ _ _ (fun _ => trivial) fun _ _ => trivial
      newUUID := hdoes _ _ _ (fun _ => trivial) fun _ _ _ _ => trivial
      findRecord := fun _ => hdoes _ _ _ (fun _ => trivial) fun _ _ _ _ => trivial
      insertRecord := fun _ _ => hdoes _ _ _ (fun _ => trivial) fun _ _ _ => trivial
      deleteStale := fun _ => hdoes _ _ _ (fun _ => trivial) fun _ _ => trivial
      claim := fun _ _ _ _ _ _ => hdoes _ _ _ (fun _ => trivial) fun _ _ _ _ => trivial
      complete := fun _ _ _ => hdoes _ _ _ (fun _ => trivial) fun _ _ _ => trivial
      tame := by
        intro cmd hcmd
        refine hdoes cmd _ _ (fun w => ?_) fun _ _ => trivial
        cases cmd with
        | createAccountTx _ _ _ | insertToken _ | rotateTx _ _ _ => cases hcmd
        | _ => trivial }

theorem sound_handler (call : Call) : Sound c i (fun _ _ => True) (call.handler c) w := by
  cases call with
  | serve site payload =>
    refine sound_bind ?_ fun _ _ => trivial
    rcases serve_cases c site payload with ⟨err, heq⟩ | ⟨request, -, heq⟩
    · rw [heq]
      trivial
    · rw [heq]
      by_cases hkey : trimSpace request.idempotencyKey = ""
      · rw [withIdempotency, if_pos hkey]
        exact sound_core request w
      · refine Facts.Rules.withIdempotency hkey (rules _ _ _) fun w _ => ?_
        exact (sound_core request w).mono fun _ _ _ _ _ => trivial
  | start =>
    simp only [Call.handler, perform, Prog.perform_bind]
    exact sound_call trivial fun _ _ _ => sound_call trivial fun _ _ _ => trivial
  | expireToken _ | expireRecord _ =>
    simp only [Call.handler, perform, Prog.perform_bind]
    exact sound_call trivial fun _ _ _ => trivial

theorem run (h : Sourced c w) (calls : List Call) (sched : List (Nat × Env)) :
    Sourced c (Pool.run (UserCenter.exec c) (State.init c w calls) sched).world := by
  have hstart : Pool.Good (UserCenter.exec c) (fun _ _ _ _ => True) (Sourced c) (fun _ => Grows) (fun _ _ _ => True)
      (State.init c w calls) := by
    exact Pool.good_start (fun _ => Grows.refl) h (Pool.forall_map fun i call _ => sound_handler call)
  exact (Pool.safe_run (fun _ => Grows.refl) (fun _ _ _ _ => Grows.trans) hstart
    (Pool.along_any _ sched)).world

theorem init (clock : Time) : Sourced c (.init clock) :=
  ⟨fun a ha => absurd ha (Coll.not_mem_empty a), fun d hd => absurd hd (Coll.not_mem_empty d),
    fun t ht => absurd ht (Coll.not_mem_empty t)⟩

end Sourced

end GameServer.UserCenter
