import GameServer.Prog

/-!
# Pools side by side

The same programs over two worlds. As long as every command is answered alike,
the pools stay at the same place; `Pool.alongside_iff` says when that is so, from
what a single command does. What the commands of a run are like, wherever a
program has computed them, is found by checking the handlers one at a time:
`Pool.safe_issues`.
-/

namespace GameServer.Pool

variable {Cmd : Type} {Ans : Cmd → Type} {W L R E α : Type}

/-! ## Two pools -/

def Matches (rel : L → R → Prop) {c : Cmd} : Option (Ans c × L) → Option (Ans c × R) → Prop
  | some (a, l), some (b, r) => a = b ∧ rel l r
  | none, none => True
  | _, _ => False

section
variable (execL : Nat → E → L → (c : Cmd) → Option (Ans c × L)) (execR : Nat → E → R → (c : Cmd) → Option (Ans c × R))

def Alongside (P : Pool Ans L α → Pool Ans R α → Nat × E → Prop) : Pool Ans L α → Pool Ans R α → List (Nat × E) → Prop
  | _, _, [] => True
  | s, t, a :: as => P s t a ∧ Alongside P (step execL s a) (step execR t a) as

structure Together (A : Nat → E → L → R → Cmd → Prop) (s : Pool Ans L α) (t : Pool Ans R α) (a : Nat × E) : Prop where
  procs : s.procs = t.procs
  next : ∀ c k, t.procs[a.1]? = some (.call c k) → A a.1 a.2 s.world t.world c

variable {execL execR} {rel : L → R → Prop}

theorem step_matches {s : Pool Ans L α} {t : Pool Ans R α} {a : Nat × E} (hprocs : s.procs = t.procs)
    (hrel : rel s.world t.world)
    (h : ∀ c k, t.procs[a.1]? = some (.call c k) → Matches rel (execL a.1 a.2 s.world c) (execR a.1 a.2 t.world c)) :
    (step execL s a).procs = (step execR t a).procs ∧ rel (step execL s a).world (step execR t a).world := by
  cases hp : t.procs[a.1]? with
  | none => simp [step, hprocs, hp, hrel]
  | some p =>
    cases p with
    | ret b => simp [step, hprocs, hp, hrel]
    | call c k =>
      have hm := h c k hp
      cases hl : execL a.1 a.2 s.world c with
      | none =>
        cases hr : execR a.1 a.2 t.world c with
        | none => simp [step, hprocs, hp, hl, hr, hrel]
        | some y => simp [Matches, hl, hr] at hm
      | some x =>
        cases hr : execR a.1 a.2 t.world c with
        | none => simp [Matches, hl, hr] at hm
        | some y =>
          simp only [Matches, hl, hr] at hm
          simp [step, hprocs, hp, hl, hr, hm.1, hm.2]

/-- Where `G` says exactly which commands are answered as `A` asks, and those are
answered alike, the pools stay together if and only if all commands are within `G`. -/
theorem alongside_iff {P G : Nat → E → R → Cmd → Prop} {A : Nat → E → L → R → Cmd → Prop}
    (hA : ∀ i e l r c, rel l r → P i e r c → (A i e l r c ↔ G i e r c))
    (hG : ∀ i e l r c, rel l r → P i e r c → G i e r c → Matches rel (execL i e l c) (execR i e r c)) :
    ∀ (as : List (Nat × E)) {s : Pool Ans L α} {t : Pool Ans R α}, s.procs = t.procs → rel s.world t.world →
      Along execR (Issues P) t as →
        (Alongside execL execR (Together A) s t as ↔ Along execR (Issues G) t as)
  | [], _, _, _, _, _ => Iff.rfl
  | a :: as, s, t, hprocs, hrel, hP => by
    have hnow : Together A s t a ↔ Issues G t a := by
      constructor
      · intro h c k hp
        exact (hA _ _ _ _ c hrel (hP.1 c k hp)).mp (h.next c k hp)
      · intro h
        exact ⟨hprocs, fun c k hp => (hA _ _ _ _ c hrel (hP.1 c k hp)).mpr (h c k hp)⟩
    have hlater : Issues G t a → (Alongside execL execR (Together A) (step execL s a) (step execR t a) as ↔
        Along execR (Issues G) (step execR t a) as) := by
      intro h
      obtain ⟨hprocs', hrel'⟩ := step_matches hprocs hrel fun c k hp => hG _ _ _ _ c hrel (hP.1 c k hp) (h c k hp)
      exact alongside_iff hA hG as hprocs' hrel' hP.2
    simp only [Alongside, Along, hnow]
    exact and_congr_right hlater

end

/-! ## What is issued -/

section
variable (exec : Nat → E → W → (c : Cmd) → Option (Ans c × W)) (P : Nat → E → W → Cmd → Prop)

def checked (i : Nat) (e : E) (w : W × Prop) (c : Cmd) : Option (Ans c × (W × Prop)) :=
  (exec i e w.1 c).map fun (r, w') => (r, w', w.2 ∧ P i e w.1 c)

variable {exec P}

theorem checked_eq_some {i : Nat} {e : E} {w w' : W × Prop} {c : Cmd} {r : Ans c} (h : checked exec P i e w c = some (r, w')) :
    exec i e w.1 c = some (r, w'.1) ∧ (w'.2 ↔ w.2 ∧ P i e w.1 c) := by
  simp only [checked, Option.map_eq_some_iff] at h
  obtain ⟨⟨r', w₁⟩, hx, heq⟩ := h
  cases heq
  exact ⟨hx, Iff.rfl⟩

structure Mirrors (t : Pool Ans (W × Prop) α) (s : Pool Ans W α) : Prop where
  world : t.world.1 = s.world
  procs : t.procs = s.procs

theorem mirrors_step {t : Pool Ans (W × Prop) α} {s : Pool Ans W α} (h : Mirrors t s) (a : Nat × E) :
    Mirrors (step (checked exec P) t a) (step exec s a) := by
  unfold step
  rw [h.procs]
  split
  · rename_i c k hp
    cases hx : exec a.1 a.2 s.world c with
    | none =>
      simp only [checked, h.world, hx, Option.map_none]
      exact h
    | some x =>
      simp only [checked, h.world, hx, Option.map_some]
      exact ⟨rfl, rfl⟩
  · exact h

variable {G : Nat → E → W → Cmd → Prop} {inv : W → Prop} {rely : Nat → W → W → Prop}

theorem issues_run (hrefl : ∀ i w, rely i w w) (htrans : ∀ i a b c, rely i a b → rely i b c → rely i a c) :
    ∀ (as : List (Nat × E)) {t : Pool Ans (W × Prop) α} {s : Pool Ans W α}, Mirrors t s →
      Good (checked exec P) (fun i e w c => G i e w.1 c) (fun w => inv w.1 ∧ w.2) (fun i a b => rely i a.1 b.1)
        (fun _ _ _ => True) t →
        Along exec (Issues G) s as → Along exec (Issues fun i e w c => (exec i e w c).isSome → P i e w c) s as
  | [], _, _, _, _, _ => trivial
  | a :: as, t, s, hm, hgood, hG => by
    have hG' : Issues (fun i e w c => G i e w.1 c) t a := by
      intro c k hp
      rw [hm.world]
      exact hG.1 c k (hm.procs ▸ hp)
    have hnext := good_step (fun i w => hrefl i w.1) (fun i a b c => htrans i a.1 b.1 c.1) hgood hG'
    refine ⟨fun c k hp hsome => ?_, issues_run hrefl htrans as (mirrors_step hm a) hnext hG.2⟩
    obtain ⟨⟨r, w'⟩, hx⟩ := Option.isSome_iff_exists.mp hsome
    have hp' : t.procs[a.1]? = some (.call c k) := hm.procs ▸ hp
    have hx' : checked exec P a.1 a.2 t.world c = some (r, w', t.world.2 ∧ P a.1 a.2 t.world.1 c) := by
      simp only [checked, hm.world, hx, Option.map_some]
    have hflag : (step (checked exec P) t (a.1, a.2)).world.2 := hnext.world.2
    rw [(step_of_exec _ hp' hx').1] at hflag
    exact hm.world ▸ hflag.2

theorem safe_issues (hrefl : ∀ i w, rely i w w) (htrans : ∀ i a b c, rely i a b → rely i b c → rely i a c) {w : W}
    {procs : List (Prog Ans α)} (hw : inv w)
    (hs : ∀ i p, procs[i]? = some p →
      Safe (checked exec P) (fun i e w c => G i e w.1 c) (fun w => inv w.1 ∧ w.2) (fun i a b => rely i a.1 b.1) i
        (fun _ _ => True) p (w, True))
    {as : List (Nat × E)} (hG : Along exec (Issues G) (start w procs) as) :
    Along exec (Issues fun i e w c => (exec i e w c).isSome → P i e w c) (start w procs) as :=
  issues_run hrefl htrans as ⟨rfl, rfl⟩ (good_start (fun i w => hrefl i w.1) ⟨hw, trivial⟩ hs) hG

end

end GameServer.Pool
