import GameServer.SessionExec

/-!
# Sessions after a failed call

`Create` and `Resume` write the session first and claim the account in a second
call. Each of them, run by itself over any store and with any failures, leaves
the sessions as they were when it returns an error, exactly if the error is not
that of the claim.
-/

namespace GameServer.Gateway

def ClaimFailed (log : List ((c : Cmd) × Ans c)) : Prop :=
  ∃ accountID r err, (⟨.claimAccount accountID r, .error err⟩ : (c : Cmd) × Ans c) ∈ log

def Record.ticket (r : Record) : String × Time × Nat × String :=
  (r.resumeTokenHash, r.expireAt, r.connectionEpoch, r.connectionID)

def World.SameSessions (w w' : World) : Prop := ∀ sid, w'.data.lookup (.session sid) = w.data.lookup (.session sid)

def World.SameTickets (w w' : World) : Prop := ∀ k, (w'.kept k).map Record.ticket = (w.kept k).map Record.ticket

/-! ## What one command does -/

section
variable {i : Nat} {e : Env} {w w' : World}

theorem data_randomID {r : Except GoErr String} (h : exec i e w .randomID = some (r, w')) : w'.data = w.data := by
  rcases exec_randomID h with ⟨rfl, -⟩ | ⟨-, -, -, -, hdata, -⟩
  · rfl
  · exact hdata

theorem data_get {id : String} {r : Except GoErr Record} (h : exec i e w (.get id) = some (r, w')) : w'.data = w.data := by
  rcases exec_cases h with h | ⟨-, rfl⟩
  · cases h
    rfl
  · rfl

theorem data_claim_error {accountID : String} {r : Record} {err : GoErr}
    (h : exec i e w (.claimAccount accountID r) = some (.error err, w')) : w'.data = w.data := by
  rcases exec_cases h with h | ⟨-, rfl⟩
  · simp only [World.answer, Option.some.injEq] at h
    cases hclaim : World.claimAccount { w with clock := w.clock + e.delay } e accountID r with
    | error err' =>
      rw [hclaim] at h
      cases h
      rfl
    | ok p =>
      rw [hclaim] at h
      cases h
  · rfl

theorem data_ne_of_lookup_none {w : World} {k : Key} {r : Record} {d : Time} (h : w.lookup k = none)
    (hd : w.store = .redis → w.clock < d) : w.data.lookup k ≠ some ⟨r, d⟩ := by
  intro hdata
  unfold World.lookup at h
  rw [hdata] at h
  simp only at h
  split at h
  · rename_i hgone
    exact Nat.not_le.mpr (hd hgone.1) hgone.2
  · cases h

theorem create_changes {rec : Record} (h : exec i e w (.create rec) = some (.ok (), w')) :
    w'.data.lookup (w.key rec.sessionID) ≠ w.data.lookup (w.key rec.sessionID) := by
  rcases exec_cases h with h | ⟨⟨text, htext⟩, -⟩
  · simp only [World.answer, Option.some.injEq, World.create] at h
    split at h
    · rename_i hmemory
      split at h
      · cases h
      · rename_i hnone
        cases h
        rw [key_memory hmemory]
        simp only [World.put, AList.lookup_insert]
        refine (data_ne_of_lookup_none (Option.not_isSome_iff_eq_none.mp hnone) fun hredis => ?_).symm
        rw [hmemory] at hredis
        cases hredis
    · split at h
      · cases h
      · split at h
        · cases h
        · rename_i hnone
          cases h
          simp only [World.put, World.key, AList.lookup_insert]
          refine (data_ne_of_lookup_none (Option.not_isSome_iff_eq_none.mp hnone) fun _ => ?_).symm
          exact Nat.lt_add_of_pos_right (Nat.mul_pos (Nat.lt_of_lt_of_le Nat.one_pos (Nat.le_max_left 1 _)) (by decide))
  · cases htext

theorem swap_kept {expected updated : Record} (h : exec i e w (.compareAndSwap expected updated) = some (.ok true, w'))
    (hsid : expected.sessionID = updated.sessionID) : w.kept (w.key updated.sessionID) = some expected := by
  rcases exec_cases h with h | ⟨⟨text, htext⟩, -⟩
  · simp only [World.answer, Option.some.injEq, World.compareAndSwap] at h
    split at h
    · rename_i hmemory
      rw [key_memory hmemory, ← hsid]
      split at h
      · cases h
      · rename_i current hcurrent
        split at h
        · rename_i heq
          exact kept_of_lookup (lookup_of_later (heq ▸ hcurrent))
        · cases h
    · split at h
      · cases h
      · split at h
        · cases h
        · rename_i hcurrent
          exact kept_of_lookup (lookup_of_later (not_not.mp hcurrent))
  · cases htext

end

theorem World.SameSessions.of_data {w w' : World} (h : w'.data = w.data) : w.SameSessions w' := by
  intro sid
  rw [h]

theorem World.SameTickets.of_data {w w' : World} (h : w'.data = w.data) : w.SameTickets w' := by
  intro k
  rw [kept_of_data h]

theorem World.SameTickets.after {w w₁ w' : World} (h : w₁.SameTickets w') (hdata : w₁.data = w.data) : w.SameTickets w' := by
  intro k
  rw [h k, kept_of_data hdata]

theorem World.SameTickets.of_swap {i : Nat} {e : Env} {w w' : World} {expected updated : Record} {swapped : Except GoErr Bool}
    (h : exec i e w (.compareAndSwap expected updated) = some (swapped, w')) (hsid : expected.sessionID = updated.sessionID)
    (hticket : expected.ticket = updated.ticket) : w.SameTickets w' := by
  rcases data_compareAndSwap h with ⟨-, hdata⟩ | ⟨rfl, d, hdata⟩
  · exact .of_data hdata
  · have hkept := swap_kept h hsid
    intro k
    unfold World.kept at hkept ⊢
    rw [hdata]
    by_cases hk : k = w.key updated.sessionID
    · rw [hk, hkept, AList.lookup_insert, Option.map_some, Option.map_some, Option.map_some, hticket]
    · rw [AList.lookup_insert_ne hk]

/-! ## The two calls -/

def AtomicUnlessClaim (same : World → Prop) (log : List ((c : Cmd) × Ans c)) (w' : World) (res : Except GoErr Created) : Prop :=
  ∀ err, res = .error err → (same w' ↔ ¬ ClaimFailed log)

theorem AtomicUnlessClaim.of_created {same : World → Prop} {log : List ((c : Cmd) × Ans c)} {w' : World}
    {res : Except GoErr Created} (h : ∃ c, res = .ok c) : AtomicUnlessClaim same log w' res := by
  intro err herr
  obtain ⟨c, rfl⟩ := h
  cases herr

theorem AtomicUnlessClaim.of_same {same : World → Prop} {log : List ((c : Cmd) × Ans c)} {w' : World} {res : Except GoErr Created}
    (h : same w') (hlog : ¬ ClaimFailed log) : AtomicUnlessClaim same log w' res :=
  fun _ _ => iff_of_true h hlog

theorem AtomicUnlessClaim.of_claim {same : World → Prop} {log : List ((c : Cmd) × Ans c)} {w' : World} {res : Except GoErr Created}
    {accountID : String} {r : Record} {err : GoErr} (h : ¬ same w') :
    AtomicUnlessClaim same (log ++ [⟨.claimAccount accountID r, .error err⟩]) w' res :=
  fun _ _ => iff_of_false h (not_not.mpr ⟨accountID, r, err, List.mem_append_right _ (List.mem_singleton_self _)⟩)

section
variable (hash : String → String) (m : Manager) (i : Nat) (w : World)

theorem create_atomic (accountID connectionID : String) (now : Time) (playerID : String) :
    (create hash m accountID connectionID now playerID).Ends exec i (AtomicUnlessClaim w.SameSessions) [] w := by
  unfold create
  simp only [perform, Prog.perform_bind]
  intro _ drawn w₁ hx₁
  have hdata₁ := data_randomID hx₁
  cases drawn with
  | error err => exact .of_same (.of_data hdata₁) (by simp [ClaimFailed])
  | ok sid =>
  intro _ drawn w₂ hx₂
  have hdata₂ := (data_randomID hx₂).trans hdata₁
  cases drawn with
  | error err => exact .of_same (.of_data hdata₂) (by simp [ClaimFailed])
  | ok token =>
  intro _ created w₃ hx₃
  cases created with
  | error err =>
    rcases data_create hx₃ with ⟨-, hdata₃⟩ | ⟨hok, -⟩
    · exact .of_same (.of_data (hdata₃.trans hdata₂)) (by simp [ClaimFailed])
    · cases hok
  | ok _ =>
  intro _ claimed w₄ hx₄
  cases claimed with
  | error err =>
    refine .of_claim fun hsame => create_changes hx₃ ?_
    rw [key_of_isRandomID (isRandomID_of_exec hx₁), ← data_claim_error hx₄, hdata₂]
    exact hsame sid
  | ok claimed =>
    intro _ previousID w₅ _
    refine Prog.Returns.ends (fun _ _ _ => .of_created) ?_ _ _
    exact (Prog.returns_true _).bind fun _ _ _ => ⟨_, rfl⟩

theorem not_sameTickets_of_swap {i : Nat} {e : Env} {w w₁ w₂ w' : World} {expected updated : Record}
    (h : exec i e w₁ (.compareAndSwap expected updated) = some (.ok true, w₂)) (hdata₁ : w₁.data = w.data)
    (hdata₂ : w'.data = w₂.data) (hsid : expected.sessionID = updated.sessionID)
    (hepoch : updated.connectionEpoch = expected.connectionEpoch + 1) : ¬ w.SameTickets w' := by
  intro hsame
  have hold := swap_kept h hsid
  rcases data_compareAndSwap h with ⟨hne, -⟩ | ⟨-, d, hdata⟩
  · exact hne rfl
  · have hnew : w'.kept (w₁.key updated.sessionID) = some updated := by
      rw [kept_of_data hdata₂, World.kept, hdata, AList.lookup_insert, Option.map_some]
    have hticket := hsame (w₁.key updated.sessionID)
    rw [hnew, ← kept_of_data hdata₁, hold] at hticket
    simp only [Option.map_some, Option.some.injEq, Record.ticket, Prod.mk.injEq] at hticket
    omega

theorem resume_atomic (sessionID token connectionID : String) (now : Time) :
    (resume hash m sessionID token connectionID now).Ends exec i (AtomicUnlessClaim w.SameTickets) [] w := by
  unfold resume
  simp only [perform, Prog.perform_bind]
  intro _ got w₁ hx₁
  have hdata₁ := data_get hx₁
  cases got with
  | error err => exact .of_same (.of_data hdata₁) (by simp [ClaimFailed])
  | ok expected =>
  dsimp only
  split
  · intro _ _ w₂ hx₂
    exact .of_same ((World.SameTickets.of_swap hx₂ rfl rfl).after hdata₁) (by simp [ClaimFailed])
  split
  · exact .of_same (.of_data hdata₁) (by simp [ClaimFailed])
  intro _ drawn w₂ hx₂
  have hdata₂ := (data_randomID hx₂).trans hdata₁
  cases drawn with
  | error err => exact .of_same (.of_data hdata₂) (by simp [ClaimFailed])
  | ok nextToken =>
  intro _ swapped w₃ hx₃
  cases swapped with
  | error err =>
    rcases data_compareAndSwap hx₃ with ⟨-, hdata₃⟩ | ⟨hok, -⟩
    · exact .of_same (.of_data (hdata₃.trans hdata₂)) (by simp [ClaimFailed])
    · cases hok
  | ok swapped =>
  cases swapped with
  | false =>
    rcases data_compareAndSwap hx₃ with ⟨-, hdata₃⟩ | ⟨hok, -⟩
    · exact .of_same (.of_data (hdata₃.trans hdata₂)) (by simp [ClaimFailed])
    · cases hok
  | true =>
  intro _ claimed w₄ hx₄
  cases claimed with
  | error err => exact .of_claim (not_sameTickets_of_swap hx₃ hdata₂ (data_claim_error hx₄) rfl rfl)
  | ok claimed =>
    intro _ previousID w₅ _
    refine Prog.Returns.ends (fun _ _ _ => .of_created) ?_ _ _
    exact (Prog.returns_true _).bind fun _ _ _ => ⟨_, rfl⟩

end

/-- A `Create` that fails leaves the sessions as they were, and a `Resume` the
tickets, exactly if it is not the claim of the account that has failed. -/
theorem failed_call_atomic_iff (hash : String → String) (m : Manager) (i : Nat) (w : World) :
    (∀ accountID connectionID now playerID, (create hash m accountID connectionID now playerID).Ends exec i
      (fun log w' res => ∀ err, res = .error err → (w.SameSessions w' ↔ ¬ ClaimFailed log)) [] w) ∧
    (∀ sessionID token connectionID now, (resume hash m sessionID token connectionID now).Ends exec i
      (fun log w' res => ∀ err, res = .error err → (w.SameTickets w' ↔ ¬ ClaimFailed log)) [] w) :=
  ⟨create_atomic hash m i w, resume_atomic hash m i w⟩

/-- The claim of a login fails after its session was stored, and so does the
claim of a resume after its token was replaced: the client's token, an hour from
its expiry, is refused from then on. -/
theorem failed_claim_locks_out :
    let calls : List Call :=
      [.create gateway1 "account" "c1" 0 "player",
        .resume gateway1 drawn1 drawn2 "c2" 0,
        .resume gateway1 drawn1 drawn2 "c2" 0,
        .create gateway1 "other" "c3" 0 "player-2"]
    let lost : Nat → Nat × Env := fun i => (i, { fail := some "i/o timeout" })
    let s := Pool.run exec (State.init id (World.init .redis 1 ∅ 0) calls)
      ([(0, { id := drawn1 }), (0, { id := drawn2 })] ++
        Pool.inOrder [0, 0, 0, 0])
    let resumed := Pool.run exec s
      ([(1, {}), (1, { id := drawn3 }), (1, {}), lost 1] ++ Pool.inOrder [2])
    let created := Pool.run exec s
      [(3, { id := drawn4 }), (3, { id := drawn5 }), (3, {}), lost 3]
    (s.answer 0).isSome ∧ (resumed.answer 1 = some (.error (.driver "i/o timeout")) ∧
      resumed.answer 2 = some (.error errInvalidToken)) ∧
      created.answer 3 = some (.error (.driver "i/o timeout")) ∧
      (s.world.lookup (.session drawn4)).isSome = false ∧
      (created.world.lookup (.session drawn4)).isSome := by
  decide +kernel

end GameServer.Gateway
