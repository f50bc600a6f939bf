import GameServer.Prog
import Mathlib.Data.List.Induction
import Mathlib.Logic.Function.Basic

/-!
# The commands of a run

`Pool.journal` lists every command that was answered in a run, by whom it was
issued and what the answer was. Where a handler has got to can be read off its
part of the list: `next` says what an answer does to the place it is at.
`Prog.Obeys` checks a program once against what is allowed at each place, and
`Pool.inv_journal` keeps an invariant of the world and the places, looking only
at allowed commands.
-/

namespace GameServer

variable {Cmd : Type} {Ans : Cmd → Type} {W E α Q : Type}

section
variable (allowed : Q → Cmd → Prop) (next : Q → (c : Cmd) → Ans c → Q)

/-- The program issues what is allowed at the place it has got to, and returns
within `post` there. -/
def Prog.Obeys {α : Type} (post : Q → α → Prop) : Q → Prog Ans α → Prop
  | q, .ret a => post q a
  | q, .call c k => allowed q c ∧ ∀ r, Prog.Obeys post (next q c r) (k r)

variable {allowed next}

theorem Prog.Obeys.bind {β : Type} {post : Q → β → Prop} {f : α → Prog Ans β} : ∀ {p : Prog Ans α} {q : Q},
    p.Obeys allowed next (fun q a => (f a).Obeys allowed next post q) q → (p >>= f).Obeys allowed next post q
  | .ret _, _, h => h
  | .call _ _, _, h => ⟨h.1, fun r => Prog.Obeys.bind (h.2 r)⟩

theorem Prog.Obeys.mono {post post' : Q → α → Prop} (hpost : ∀ q a, post q a → post' q a) : ∀ {p : Prog Ans α} {q : Q},
    p.Obeys allowed next post q → p.Obeys allowed next post' q
  | .ret a, q, h => hpost q a h
  | .call _ _, _, h => ⟨h.1, fun r => (h.2 r).mono hpost⟩

theorem Prog.Obeys.of_uses {P : Cmd → Prop} {q : Q} (hstay : ∀ c, P c → allowed q c ∧ ∀ r, next q c r = q) :
    ∀ {p : Prog Ans α}, p.Uses P → p.Obeys allowed next (fun q' _ => q' = q) q
  | .ret _, _ => rfl
  | .call c k, h => ⟨(hstay c h.1).1, fun r => by rw [(hstay c h.1).2 r]; exact Prog.Obeys.of_uses hstay (h.2 r)⟩

theorem Prog.Obeys.alone {answer : E → W → (c : Cmd) → Ans c × W} {f : W → Q}
    (hnext : ∀ e w c, f (answer e w c).2 = next (f w) c (answer e w c).1) {post : Q → α → Prop} :
    ∀ (p : Prog Ans α) (es : Nat → E) (w : W), p.Obeys allowed next post (f w) →
      post (f (p.alone answer es w).2) (p.alone answer es w).1
  | .ret _, _, _, h => h
  | .call c k, es, w, h => by
    have hrest := h.2 (answer (es 0) w c).1
    rw [← hnext] at hrest
    exact Prog.Obeys.alone hnext (k (answer (es 0) w c).1) (fun n => es (n + 1)) (answer (es 0) w c).2 hrest

end

namespace Pool

structure Entry (Ans : Cmd → Type) where
  pid : Nat
  cmd : Cmd
  answer : Ans cmd

section
variable (exec : Nat → E → W → (c : Cmd) → Option (Ans c × W))

def answered (s : Pool Ans W α) (a : Nat × E) : Option (Entry Ans) :=
  match s.procs[a.1]? with
  | some (.call c _) => (exec a.1 a.2 s.world c).map fun x => ⟨a.1, c, x.1⟩
  | _ => none

def journal (s : Pool Ans W α) : List (Nat × E) → List (Entry Ans)
  | [] => []
  | a :: as => (answered exec s a).toList ++ journal (step exec s a) as

variable {exec}

theorem journal_append : ∀ (as bs : List (Nat × E)) (s : Pool Ans W α),
    journal exec s (as ++ bs) = journal exec s as ++ journal exec (run exec s as) bs
  | [], _, _ => rfl
  | a :: as, bs, s => by
    rw [List.cons_append, journal, journal_append as bs, ← List.append_assoc]
    rfl

theorem answered_cases (s : Pool Ans W α) (a : Nat × E) :
    step exec s a = s ∧ answered exec s a = none ∨ ∃ c k r w, s.procs[a.1]? = some (.call c k) ∧
      exec a.1 a.2 s.world c = some (r, w) ∧ (step exec s a).world = w ∧ (step exec s a).procs = s.procs.set a.1 (k r) ∧
      answered exec s a = some ⟨a.1, c, r⟩ := by
  unfold step answered
  cases hp : s.procs[a.1]? with
  | none => exact .inl ⟨rfl, rfl⟩
  | some p =>
    cases p with
    | ret b => exact .inl ⟨rfl, rfl⟩
    | call c k =>
      cases hx : exec a.1 a.2 s.world c with
      | none => exact .inl ⟨by simp only [hx], by simp only [hx, Option.map_none]⟩
      | some x => exact .inr ⟨c, k, x.1, x.2, rfl, hx, by simp only [hx], by simp only [hx], by simp only [hx, Option.map_some]⟩

theorem length_procs_run (as : List (Nat × E)) (s : Pool Ans W α) : (run exec s as).procs.length = s.procs.length := by
  induction as generalizing s with
  | nil => rfl
  | cons a as ih =>
    rw [run_cons, ih]
    rcases step_cases exec s a with h | ⟨_, _, _, _, -, -, h⟩
    · rw [h]
    · rw [h, List.length_set]

end

section
variable {allowed : Q → Cmd → Prop} (next : Q → (c : Cmd) → Ans c → Q)

def place (q : Nat → Q) (j : List (Entry Ans)) (i : Nat) : Q :=
  j.foldl (fun q x => if x.pid = i then next q x.cmd x.answer else q) (q i)

theorem place_snoc (q : Nat → Q) (j : List (Entry Ans)) (i : Nat) (c : Cmd) (r : Ans c) :
    place next q (j ++ [⟨i, c, r⟩]) = Function.update (place next q j) i (next (place next q j i) c r) := by
  funext k
  simp only [place, List.foldl_append, List.foldl_cons, List.foldl_nil]
  by_cases h : i = k
  · subst h; simp
  · rw [if_neg h, Function.update_of_ne (Ne.symm h)]
    rfl

variable {next} {exec : Nat → E → W → (c : Cmd) → Option (Ans c × W)} {J : W → List (Entry Ans) → Prop}
  {post : Q → α → Prop} {q : Nat → Q}

/-- What every allowed command keeps holds after any run of handlers that obey,
and what they have left to do obeys from where they are. -/
theorem inv_journal {w : W} {procs : List (Prog Ans α)}
    (hobeys : ∀ (i : Nat) (p : Prog Ans α), procs[i]? = some p → p.Obeys allowed next post (q i)) (hw : J w [])
    (hstep : ∀ i e w j c r w', i < procs.length → J w j → allowed (place next q j i) c → exec i e w c = some (r, w') →
      J w' (j ++ [⟨i, c, r⟩])) (as : List (Nat × E)) :
    J (run exec (start w procs) as).world (journal exec (start w procs) as) ∧
      ∀ (i : Nat) (p : Prog Ans α), (run exec (start w procs) as).procs[i]? = some p →
        p.Obeys allowed next post (place next q (journal exec (start w procs) as) i) := by
  induction as using List.reverseRecOn with
  | nil => exact ⟨hw, hobeys⟩
  | append_singleton as a ih =>
    obtain ⟨hJ, hall⟩ := ih
    have hlast : journal exec (start w procs) (as ++ [a]) =
        journal exec (start w procs) as ++ (answered exec (run exec (start w procs) as) a).toList := by
      rw [journal_append, journal, journal, List.append_nil]
    rw [run_append, hlast]
    change J (step exec _ a).world _ ∧ ∀ (i : Nat) (p : Prog Ans α), (step exec _ a).procs[i]? = some p → _
    have hlen : (run exec (start w procs) as).procs.length = procs.length := length_procs_run as _
    rcases answered_cases (run exec (start w procs) as) a with ⟨hsame, hnone⟩ | ⟨c, k, r, w', hp, hx, hworld, hprocs, hsome⟩
    · rw [hsame, hnone, Option.toList_none, List.append_nil]
      exact ⟨hJ, hall⟩
    · obtain ⟨hallowed, hk⟩ := hall a.1 _ hp
      have hlt := (List.getElem?_eq_some_iff.mp hp).1
      rw [hworld, hprocs, hsome, Option.toList_some]
      refine ⟨hstep _ _ _ _ _ _ _ (hlen ▸ hlt) hJ hallowed hx, fun i p hi => ?_⟩
      rw [place_snoc]
      by_cases hia : a.1 = i
      · subst hia
        rw [List.getElem?_set_self hlt, Option.some.injEq] at hi
        rw [Function.update_self, ← hi]
        exact hk r
      · rw [List.getElem?_set_ne hia] at hi
        rw [Function.update_of_ne (Ne.symm hia)]
        exact hall i p hi

end

end Pool

end GameServer
