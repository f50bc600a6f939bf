import GameServer.Prog

/-!
# Handlers that run to their end

`Pool.Total` is total correctness of one handler: as long as the environment
contributes within `H`, the handler can always move, and wherever it gets it
returns within its postcondition. Between its commands the world may change
within `rely`; for a handler that runs alone that is equality, and
`Pool.total_run` and `Pool.total_returns` speak of its runs in a pool.
-/

namespace GameServer.Pool

variable {Cmd : Type} {Ans : Cmd → Type} {W E α : Type}

section
variable (exec : Nat → E → W → (c : Cmd) → Option (Ans c × W)) (H : E → W → Prop) (rely : W → W → Prop)

def Total (i : Nat) (post : W → α → Prop) : Prog Ans α → W → Prop
  | .ret a, w => post w a
  | .call c k, w => ∀ w₁, rely w w₁ → (∃ e r w₂, H e w₁ ∧ exec i e w₁ c = some (r, w₂)) ∧
      ∀ e r w₂, H e w₁ → exec i e w₁ c = some (r, w₂) → Total i post (k r) w₂

variable {exec H rely}

theorem Total.bind {β : Type} {i : Nat} {post : W → β → Prop} {f : α → Prog Ans β} :
    ∀ {p : Prog Ans α} {w : W}, Total exec H rely i (fun w a => Total exec H rely i post (f a) w) p w →
      Total exec H rely i post (p >>= f) w
  | .ret _, _, h => h
  | .call _ _, _, h => fun w₁ hr => ⟨(h w₁ hr).1, fun e r w₂ he hx => Total.bind ((h w₁ hr).2 e r w₂ he hx)⟩

theorem Total.mono {i : Nat} {post post' : W → α → Prop} (hpost : ∀ w a, post w a → post' w a) :
    ∀ {p : Prog Ans α} {w : W}, Total exec H rely i post p w → Total exec H rely i post' p w
  | .ret a, w, h => hpost w a h
  | .call _ _, _, h => fun w₁ hr => ⟨(h w₁ hr).1, fun e r w₂ he hx => ((h w₁ hr).2 e r w₂ he hx).mono hpost⟩

theorem Total.and {i : Nat} {post post' : W → α → Prop} : ∀ {p : Prog Ans α} {w : W}, Total exec H rely i post p w →
    Total exec H rely i post' p w → Total exec H rely i (fun w a => post w a ∧ post' w a) p w
  | .ret _, _, h, h' => ⟨h, h'⟩
  | .call _ _, _, h, h' => fun w₁ hr =>
    ⟨(h w₁ hr).1, fun e r w₂ he hx => ((h w₁ hr).2 e r w₂ he hx).and ((h' w₁ hr).2 e r w₂ he hx)⟩

theorem Total.safe {i : Nat} {post : W → α → Prop} : ∀ {p : Prog Ans α} {w : W}, Total exec H Eq i post p w →
    Safe exec (fun _ e w _ => H e w) (fun _ => True) (fun j w w' => j = i → w = w') i post p w
  | .ret _, _, h => h
  | .call _ _, _, h => fun e _ r w₂ hr _ he hx => ⟨trivial, fun _ hj hi => absurd hi hj, ((h _ (hr rfl)).2 e r w₂ he hx).safe⟩

theorem Total.exists_post {i : Nat} {post : W → α → Prop} (hrefl : ∀ w, rely w w) : ∀ {p : Prog Ans α} {w : W},
    Total exec H rely i post p w → ∃ w a, post w a
  | .ret a, w, h => ⟨w, a, h⟩
  | .call _ _, w, h => by
    obtain ⟨⟨e, r, w₂, he, hx⟩, hnext⟩ := h w (hrefl w)
    exact (hnext e r w₂ he hx).exists_post hrefl

end

section
variable {exec : Nat → E → W → (c : Cmd) → Option (Ans c × W)} {H : E → W → Prop} {i : Nat} {post : W → α → Prop}

def Alone (H : E → W → Prop) (i : Nat) (s : Pool Ans W α) (a : Nat × E) : Prop := a.1 = i ∧ H a.2 s.world

theorem total_run : ∀ (as : List (Nat × E)) {s : Pool Ans W α} {p : Prog Ans α}, s.procs[i]? = some p →
    Total exec H Eq i post p s.world → Along exec (Alone H i) s as →
      ∃ p', (run exec s as).procs[i]? = some p' ∧ Total exec H Eq i post p' (run exec s as).world
  | [], _, p, hp, h, _ => ⟨p, hp, h⟩
  | (j, e) :: as, s, p, hp, h, ⟨⟨hi, he⟩, has⟩ => by
    obtain rfl : i = j := hi.symm
    rcases step_cases exec s (i, e) with heq | ⟨c, k, r, w, hpa, hx, heq⟩
    · rw [run_cons]
      rw [heq] at has ⊢
      exact total_run as hp h has
    · obtain rfl : p = .call c k := Option.some.inj (hp.symm.trans hpa)
      obtain ⟨hw, hnext⟩ := step_of_exec exec hp hx
      exact total_run as hnext (hw ▸ (h _ rfl).2 _ _ _ he hx) has

theorem safe_alone : ∀ (as : List (Nat × E)) {s : Pool Ans W α} {p : Prog Ans α} {a : α}, s.procs[i]? = some p →
    Safe exec (fun _ e w _ => H e w) (fun _ => True) (fun j w w' => j = i → w = w') i post p s.world →
      Along exec (Alone H i) s as → (run exec s as).answer i = some a → post (run exec s as).world a
  | [], s, p, a, hp, h, _, ha => by
    obtain rfl : p = .ret a := Option.some.inj (hp.symm.trans (answer_eq_some ha))
    exact h
  | (j, e) :: as, s, p, a, hp, h, ⟨⟨hi, he⟩, has⟩, ha => by
    obtain rfl : i = j := hi.symm
    rw [run_cons] at ha ⊢
    rcases step_cases exec s (i, e) with heq | ⟨c, k, r, w, hpa, hx, heq⟩
    · rw [heq] at has ha ⊢
      exact safe_alone as hp h has ha
    · obtain rfl : p = .call c k := Option.some.inj (hp.symm.trans hpa)
      obtain ⟨hw, hnext⟩ := step_of_exec exec hp hx
      exact safe_alone as hnext (hw ▸ (h _ _ _ _ (fun _ => rfl) trivial he hx).2.2) has ha

theorem total_returns {p : Prog Ans α} : ∀ {s : Pool Ans W α}, s.procs[i]? = some p → Total exec H Eq i post p s.world →
    ∃ as a, Along exec (Alone H i) s as ∧ (run exec s as).answer i = some a ∧ post (run exec s as).world a := by
  induction p with
  | ret a =>
    intro s hp h
    refine ⟨[], a, trivial, ?_, h⟩
    simp only [run_nil, answer, hp]
  | call c k ih =>
    intro s hp h
    obtain ⟨⟨e, r, w, he, hx⟩, hnext⟩ := h _ rfl
    obtain ⟨hworld, hproc⟩ := step_of_exec exec hp hx
    have htotal := hnext e r w he hx
    rw [← hworld] at htotal
    obtain ⟨as, a, has, hans, hpost⟩ := ih r hproc htotal
    exact ⟨(i, e) :: as, a, ⟨⟨rfl, he⟩, has⟩, hans, hpost⟩

theorem Total.post_of_answer {s : Pool Ans W α} {p : Prog Ans α} {a : α} (hp : s.procs[i]? = some p)
    (h : Total exec H Eq i post p s.world) (ha : s.answer i = some a) : post s.world a := by
  obtain rfl : p = .ret a := Option.some.inj (hp.symm.trans (answer_eq_some ha))
  exact h

/-- Running alone, the handler comes to its end from wherever it has got, and it
ends within `post`. -/
def Ends (exec : Nat → E → W → (c : Cmd) → Option (Ans c × W)) (H : E → W → Prop) (i : Nat) (post : W → α → Prop)
    (s : Pool Ans W α) : Prop :=
  ∀ as, Along exec (Alone H i) s as →
    (∃ more a, Along exec (Alone H i) (run exec s as) more ∧ (run exec s (as ++ more)).answer i = some a) ∧
    ∀ a, (run exec s as).answer i = some a → post (run exec s as).world a

theorem Total.ends {s : Pool Ans W α} {p : Prog Ans α} (hp : s.procs[i]? = some p) (h : Total exec H Eq i post p s.world) :
    Ends exec H i post s := by
  intro as has
  obtain ⟨p', hp', h'⟩ := total_run as hp h has
  obtain ⟨more, a, hmore, ha, -⟩ := total_returns hp' h'
  exact ⟨⟨more, a, hmore, run_append exec s as more ▸ ha⟩, fun _ ha => h'.post_of_answer hp' ha⟩

theorem Ends.meet {post' : W → α → Prop} {s : Pool Ans W α} (h : Ends exec H i post s) (h' : Ends exec H i post' s) :
    ∃ w a, post w a ∧ post' w a := by
  obtain ⟨more, a, hmore, ha⟩ := (h [] trivial).1
  exact ⟨_, a, (h more hmore).2 a ha, (h' more hmore).2 a ha⟩

end

end GameServer.Pool
