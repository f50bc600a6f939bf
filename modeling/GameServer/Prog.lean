import Mathlib.Algebra.Order.Ring.Int
import Mathlib.Data.List.Basic

/-!
# Programs over a shared world, and their interleavings

A handler reaches the shared world (a database, a cache, a clock) only through
atomic commands. `Prog` is a handler as the world sees it: it has returned, or
it waits for the answer to one command. A `Pool` runs any number of handlers
over one world; a schedule says which handler moves next and what the
environment contributes to that move. Every interleaving is a schedule, and a
handler that crashes is one that is not scheduled again.

`Pool.inv_run` proves an invariant of the world from its commands alone.
`Pool.safe_run` is the rely-guarantee rule: each handler is checked on its own
against what the others may do to the world (`rely`). `Pool.client_run` follows
one handler, with all the worlds it has seen, among others.
-/

namespace GameServer

inductive Prog {Cmd : Type} (Ans : Cmd → Type) (α : Type) : Type
  | ret (a : α)
  | call (c : Cmd) (k : Ans c → Prog Ans α)

namespace Prog

variable {Cmd : Type} {Ans : Cmd → Type} {α β : Type}

def bind : Prog Ans α → (α → Prog Ans β) → Prog Ans β
  | ret a, f => f a
  | call c k, f => call c fun r => (k r).bind f

instance : Monad (Prog Ans) where
  pure := ret
  bind := bind

def perform (c : Cmd) : Prog Ans (Ans c) := call c ret

def next? : Prog Ans α → Option Cmd
  | ret _ => none
  | call c _ => some c

@[simp] theorem pure_eq (a : α) : (pure a : Prog Ans α) = ret a := rfl

@[simp] theorem ret_bind (a : α) (f : α → Prog Ans β) : (ret a >>= f) = f a := rfl

@[simp] theorem call_bind (c : Cmd) (k : Ans c → Prog Ans α) (f : α → Prog Ans β) :
    (call c k >>= f) = call c fun r => k r >>= f := rfl

@[simp] theorem perform_bind (c : Cmd) (f : Ans c → Prog Ans β) :
    (perform c >>= f) = call c f := rfl

/-- The program by itself: its commands are answered one after the other, each
with the next contribution of the environment. -/
def alone {W E : Type} (answer : E → W → (c : Cmd) → Ans c × W) : Prog Ans α → (Nat → E) → W → α × W
  | ret a, _, w => (a, w)
  | call c k, es, w => (k (answer (es 0) w c).1).alone answer (fun n => es (n + 1)) (answer (es 0) w c).2

theorem alone_bind_ret {W E : Type} {answer : E → W → (c : Cmd) → Ans c × W} (f : α → β) (p : Prog Ans α)
    (es : Nat → E) (w : W) :
    (p >>= fun a => ret (f a)).alone answer es w = (f (p.alone answer es w).1, (p.alone answer es w).2) := by
  induction p generalizing es w with
  | ret a => rfl
  | call c k ih => exact ih _ _ _

theorem alone_bind {W E : Type} {answer : E → W → (c : Cmd) → Ans c × W} (f : α → Prog Ans β) (p : Prog Ans α)
    (e : E) (w : W) :
    (p >>= f).alone answer (fun _ => e) w =
      (f (p.alone answer (fun _ => e) w).1).alone answer (fun _ => e) (p.alone answer (fun _ => e) w).2 := by
  induction p generalizing w with
  | ret a => rfl
  | call c k ih => exact ih _ _

theorem exists_alone_bind {W E : Type} {answer : E → W → (c : Cmd) → Ans c × W} (f : α → Prog Ans β) (p : Prog Ans α)
    (es : Nat → E) (w : W) :
    ∃ es', (p >>= f).alone answer es w = (f (p.alone answer es w).1).alone answer es' (p.alone answer es w).2 := by
  induction p generalizing es w with
  | ret a => exact ⟨es, rfl⟩
  | call c k ih => exact ih _ _ _

def Uses (P : Cmd → Prop) : Prog Ans α → Prop
  | ret _ => True
  | call c k => P c ∧ ∀ r, (k r).Uses P

variable {p : Prog Ans α} {f : α → Prog Ans β} {P : (c : Cmd) → Ans c → Prop}

theorem Uses.mono {P Q : Cmd → Prop} (h : ∀ c, P c → Q c) (hp : p.Uses P) : p.Uses Q := by
  induction p with
  | ret a => trivial
  | call c k ih => exact ⟨h c hp.1, fun r => ih r (hp.2 r)⟩

theorem Uses.alone {W E : Type} {answer : E → W → (c : Cmd) → Ans c × W} {P : Cmd → Prop}
    (hanswer : ∀ e w c, P c → (answer e w c).2 = w) (hp : p.Uses P) (es : Nat → E) (w : W) :
    (p.alone answer es w).2 = w := by
  induction p generalizing es w with
  | ret a => rfl
  | call c k ih =>
    have hw := hanswer (es 0) w c hp.1
    rw [Prog.alone, hw]
    exact ih _ (hp.2 _) _ _

theorem uses_true : ∀ p : Prog Ans α, p.Uses fun _ => True
  | .ret _ => trivial
  | .call _ k => ⟨trivial, fun r => uses_true (k r)⟩

theorem Uses.bind {P : Cmd → Prop} (hp : p.Uses P) (hf : ∀ a, (f a).Uses P) : (p >>= f).Uses P := by
  induction p with
  | ret a => exact hf a
  | call c k ih => exact ⟨hp.1, fun r => ih r (hp.2 r)⟩

def Returns (Q : α → Prop) : Prog Ans α → Prop
  | ret a => Q a
  | call _ k => ∀ r, (k r).Returns Q

theorem returns_true : ∀ p : Prog Ans α, p.Returns fun _ => True
  | .ret _ => trivial
  | .call _ k => fun r => returns_true (k r)

theorem Returns.bind {Q : β → Prop} {R : α → Prop} (hp : p.Returns R) (hf : ∀ a, R a → (f a).Returns Q) :
    (p >>= f).Returns Q := by
  induction p with
  | ret a => exact hf a hp
  | call c k ih => exact fun r => ih r (hp r)

/-- While its commands are answered within `A`, the program issues commands
within `P` only, and returns within `Q`. -/
def Within (P : Cmd → Prop) (A : (c : Cmd) → Ans c → Prop) (Q : α → Prop) : Prog Ans α → Prop
  | ret a => Q a
  | call c k => P c ∧ ∀ r, A c r → (k r).Within P A Q

theorem Within.bind {P : Cmd → Prop} {A : (c : Cmd) → Ans c → Prop} {Q : β → Prop} {R : α → Prop}
    (hp : p.Within P A R) (hf : ∀ a, R a → (f a).Within P A Q) : (p >>= f).Within P A Q := by
  induction p with
  | ret a => exact hf a hp
  | call c k ih => exact ⟨hp.1, fun r hr => ih r (hp.2 r hr)⟩

def Decides (P : (c : Cmd) → Ans c → Prop) (Q : α → Prop) : Prog Ans α → Prop
  | ret _ => True
  | call c k => ∀ r, (P c r → (k r).Returns Q) ∧ (k r).Decides P Q

theorem Decides.bind {Q : β → Prop} {R : α → Prop} (hp : p.Decides P R) (hret : ∀ a, R a → (f a).Returns Q)
    (hf : ∀ a, (f a).Decides P Q) :
    (p >>= f).Decides P Q := by
  induction p with
  | ret a => exact hf a
  | call c k ih => exact fun r => ⟨fun hr => ((hp r).1 hr).bind hret, ih r (hp r).2⟩

/-- Whatever its commands are answered, the program issues a command within `P`
before it returns. -/
def Owes (P : Cmd → Prop) : Prog Ans α → Prop
  | ret _ => False
  | call c k => P c ∨ ∀ r, (k r).Owes P

theorem Owes.bind {P : Cmd → Prop} (f : α → Prog Ans β) (hp : p.Owes P) : (p >>= f).Owes P := by
  induction p with
  | ret a => exact hp.elim
  | call c k ih => exact hp.imp id fun h r => ih r (h r)

def After (P : (c : Cmd) → Ans c → Prop) (Q : Prog Ans α → Prop) : Prog Ans α → Prop
  | ret _ => True
  | call c k => ∀ r, (P c r → Q (k r)) ∧ (k r).After P Q

theorem After.bind {Q : Prog Ans α → Prop} {R : Prog Ans β → Prop} (hQ : ∀ p, Q p → R (p >>= f))
    (hf : ∀ a, (f a).After P R) (hp : p.After P Q) :
    (p >>= f).After P R := by
  induction p with
  | ret a => exact hf a
  | call c k ih => exact fun r => ⟨fun hr => hQ _ ((hp r).1 hr), ih r (hp r).2⟩

theorem After.of_uses {Q : Prog Ans α → Prop} (hp : p.Uses fun c => ∀ r, ¬ P c r) : p.After P Q := by
  induction p with
  | ret a => trivial
  | call c k ih => exact fun r => ⟨fun hr => absurd hr (hp.1 r), ih r (hp.2 r)⟩

theorem Decides.of_uses {Q : α → Prop} (hp : p.Uses fun c => ∀ r, ¬ P c r) : p.Decides P Q := by
  induction p with
  | ret a => trivial
  | call c k ih => exact fun r => ⟨fun hr => absurd hr (hp.1 r), ih r (hp.2 r)⟩

/-- However its commands are answered, the program by itself ends only in what
`post` allows, of the commands so far with their answers, the world and the
result. -/
def Ends {W E : Type} (exec : Nat → E → W → (c : Cmd) → Option (Ans c × W)) (i : Nat)
    (post : List ((c : Cmd) × Ans c) → W → α → Prop) : Prog Ans α → List ((c : Cmd) × Ans c) → W → Prop
  | ret a, log, w => post log w a
  | call c k, log, w => ∀ e r w', exec i e w c = some (r, w') → (k r).Ends exec i post (log ++ [⟨c, r⟩]) w'

theorem Returns.ends {W E : Type} {exec : Nat → E → W → (c : Cmd) → Option (Ans c × W)} {i : Nat} {Q : α → Prop}
    {post : List ((c : Cmd) × Ans c) → W → α → Prop} (hpost : ∀ log w a, Q a → post log w a) :
    ∀ {p : Prog Ans α}, p.Returns Q → ∀ log w, p.Ends exec i post log w
  | ret _, hp, log, w => hpost log w _ hp
  | call _ _, hp, log, _ => fun _ r w' _ => Returns.ends hpost (hp r) (log ++ [⟨_, r⟩]) w'

def Leads {W E : Type} (exec : Nat → E → W → (c : Cmd) → Option (Ans c × W)) (i : Nat) : Prog Ans α → W → α → W → Prop
  | ret a, w, b, w' => a = b ∧ w = w'
  | call c k, w, b, w' => ∃ e r w₁, exec i e w c = some (r, w₁) ∧ (k r).Leads exec i w₁ b w'

def follow {W E : Type} (exec : Nat → E → W → (c : Cmd) → Option (Ans c × W)) (i : Nat) : Prog Ans α → List E → W → Option (α × W)
  | ret a, _, w => some (a, w)
  | call _ _, [], _ => none
  | call c k, e :: es, w =>
    match exec i e w c with
    | none => none
    | some (r, w') => (k r).follow exec i es w'

theorem leads_follow {W E : Type} {exec : Nat → E → W → (c : Cmd) → Option (Ans c × W)} {i : Nat} :
    ∀ {p : Prog Ans α} {es : List E} {w : W} {a : α} {w' : W}, p.follow exec i es w = some (a, w') → p.Leads exec i w a w'
  | ret _, _, _, _, _, h => by
    cases h
    exact ⟨rfl, rfl⟩
  | call c _, e :: es, w, _, _, h => by
    rw [follow] at h
    cases hx : exec i e w c with
    | none =>
      rw [hx] at h
      cases h
    | some x =>
      rw [hx] at h
      exact ⟨e, x.1, x.2, hx, leads_follow h⟩

theorem Leads.same {W E β : Type} {exec : Nat → E → W → (c : Cmd) → Option (Ans c × W)} {i : Nat} {P : Cmd → Prop} {f : W → β}
    (hexec : ∀ e w c r w', P c → exec i e w c = some (r, w') → f w' = f w) :
    ∀ {p : Prog Ans α} {w : W} {a : α} {w' : W}, p.Uses P → p.Leads exec i w a w' → f w' = f w
  | ret _, _, _, _, _, h => congrArg f h.2.symm
  | call c _, _, _, _, hp, ⟨e, r, w₁, hx, h⟩ => (Leads.same hexec (hp.2 r) h).trans (hexec e _ c r w₁ hp.1 hx)

theorem Leads.returns {W E : Type} {exec : Nat → E → W → (c : Cmd) → Option (Ans c × W)} {i : Nat} {Q : α → Prop} :
    ∀ {p : Prog Ans α} {w : W} {a : α} {w' : W}, p.Returns Q → p.Leads exec i w a w' → Q a
  | ret _, _, _, _, hp, h => h.1 ▸ hp
  | call _ _, _, _, _, hp, ⟨_, r, _, _, h⟩ => Leads.returns (hp r) h

end Prog

/-- Handlers over one world. `returned` lists, newest first, who returned what
and the world at that moment. -/
structure Pool {Cmd : Type} (Ans : Cmd → Type) (W α : Type) where
  world : W
  procs : List (Prog Ans α)
  returned : List (Nat × α × W)

namespace Pool

variable {Cmd : Type} {Ans : Cmd → Type} {W E α : Type}

def start (w : W) (procs : List (Prog Ans α)) : Pool Ans W α := ⟨w, procs, []⟩

def noteReturn (i : Nat) (w : W) (log : List (Nat × α × W)) : Prog Ans α → List (Nat × α × W)
  | .ret a => (i, a, w) :: log
  | .call _ _ => log

def answer (s : Pool Ans W α) (i : Nat) : Option α :=
  match s.procs[i]? with
  | some (.ret a) => some a
  | _ => none

theorem answer_eq_some {s : Pool Ans W α} {i : Nat} {a : α} (h : s.answer i = some a) :
    s.procs[i]? = some (.ret a) := by
  unfold answer at h
  split at h
  · rename_i b hb
    rw [hb, Option.some.inj h]
  · cases h

section
variable (exec : Nat → E → W → (c : Cmd) → Option (Ans c × W))

/-- Handler `a.1` moves, with the environment's contribution `a.2`. A handler
that has returned, or whose command is not possible now, does not move. -/
def step (s : Pool Ans W α) (a : Nat × E) : Pool Ans W α :=
  match s.procs[a.1]? with
  | some (.call c k) =>
    match exec a.1 a.2 s.world c with
    | some (r, w) => ⟨w, s.procs.set a.1 (k r), noteReturn a.1 w s.returned (k r)⟩
    | none => s
  | _ => s

def run (s : Pool Ans W α) (as : List (Nat × E)) : Pool Ans W α := as.foldl (step exec) s

@[simp] theorem run_nil (s : Pool Ans W α) : run exec s [] = s := rfl

@[simp] theorem run_cons (s : Pool Ans W α) (a : Nat × E) (as : List (Nat × E)) :
    run exec s (a :: as) = run exec (step exec s a) as := rfl

theorem run_append (s : Pool Ans W α) (as bs : List (Nat × E)) :
    run exec s (as ++ bs) = run exec (run exec s as) bs := List.foldl_append

def inOrder [Inhabited E] (order : List Nat) : List (Nat × E) := order.map (·, default)

theorem step_cases (s : Pool Ans W α) (a : Nat × E) :
    step exec s a = s ∨ ∃ c k r w, s.procs[a.1]? = some (.call c k) ∧
      exec a.1 a.2 s.world c = some (r, w) ∧
      step exec s a = ⟨w, s.procs.set a.1 (k r), noteReturn a.1 w s.returned (k r)⟩ := by
  unfold step
  cases hp : s.procs[a.1]? with
  | none => exact .inl rfl
  | some p =>
    cases p with
    | ret b => exact .inl rfl
    | call c k =>
      cases hx : exec a.1 a.2 s.world c with
      | none => simp [hx]
      | some rw =>
        obtain ⟨r, w⟩ := rw
        exact .inr ⟨c, k, r, w, rfl, hx, by simp [hx]⟩

variable {s : Pool Ans W α} {P : Pool Ans W α → Nat × E → Prop}

theorem step_of_exec {i : Nat} {e : E} {c : Cmd} {k : Ans c → Prog Ans α} {r : Ans c} {w : W}
    (hp : s.procs[i]? = some (.call c k)) (hx : exec i e s.world c = some (r, w)) :
    (step exec s (i, e)).world = w ∧ (step exec s (i, e)).procs[i]? = some (k r) := by
  have hlt : i < s.procs.length := (List.getElem?_eq_some_iff.mp hp).1
  simp only [step, hp, hx]
  exact ⟨trivial, List.getElem?_set_self hlt⟩

theorem step_of_ret {a : Nat × E} {b : α} (h : s.procs[a.1]? = some (.ret b)) : step exec s a = s := by
  simp only [step, h]

theorem run_of_ret {i : Nat} {b : α} (h : s.procs[i]? = some (.ret b)) : ∀ (as : List (Nat × E)),
    (∀ a ∈ as, a.1 = i) → run exec s as = s
  | [], _ => rfl
  | a :: as, has => by
    obtain rfl : a.1 = i := has a (List.mem_cons_self ..)
    rw [run_cons, step_of_ret exec h, run_of_ret h as fun b hb => has b (List.mem_cons_of_mem _ hb)]

theorem procs_step_of_ne {a : Nat × E} {i : Nat} (ha : a.1 ≠ i) :
    (step exec s a).procs[i]? = s.procs[i]? := by
  rcases step_cases exec s a with h | ⟨_, _, _, _, -, -, h⟩
  · rw [h]
  · rw [h]
    exact List.getElem?_set_ne ha

theorem procs_run_of_ne {i : Nat} : ∀ (as : List (Nat × E)) (s : Pool Ans W α), (∀ a ∈ as, a.1 ≠ i) →
    (run exec s as).procs[i]? = s.procs[i]?
  | [], _, _ => rfl
  | a :: as, s, h => by
    rw [run_cons, procs_run_of_ne as _ fun b hb => h b (List.mem_cons_of_mem _ hb),
      procs_step_of_ne exec (h a (List.mem_cons_self ..))]

theorem answer_step_of_ne {a : Nat × E} {i : Nat} (ha : a.1 ≠ i) :
    (step exec s a).answer i = s.answer i := by
  rw [answer, procs_step_of_ne exec ha, answer]

theorem answer_step_of_some {i : Nat} {b : α} (h : s.answer i = some b) (a : Nat × E) :
    (step exec s a).answer i = some b := by
  by_cases ha : a.1 = i
  · rw [step_of_ret exec (ha ▸ answer_eq_some h), h]
  · rw [answer_step_of_ne exec ha, h]

theorem answer_run_of_some {i : Nat} {b : α} : ∀ (as : List (Nat × E)) {s : Pool Ans W α}, s.answer i = some b →
    (run exec s as).answer i = some b
  | [], _, h => h
  | a :: as, _, h => answer_run_of_some as (answer_step_of_some exec h a)

def Along (P : Pool Ans W α → Nat × E → Prop) : Pool Ans W α → List (Nat × E) → Prop
  | _, [] => True
  | s, a :: as => P s a ∧ Along P (step exec s a) as

def Issues (G : Nat → E → W → Cmd → Prop) (s : Pool Ans W α) (a : Nat × E) : Prop :=
  ∀ c k, s.procs[a.1]? = some (.call c k) → G a.1 a.2 s.world c

instance Along.decidable (P : Pool Ans W α → Nat × E → Prop) [∀ s a, Decidable (P s a)] :
    ∀ (s : Pool Ans W α) (as : List (Nat × E)), Decidable (Along exec P s as)
  | _, [] => .isTrue trivial
  | s, a :: as =>
    have := Along.decidable P (step exec s a) as
    inferInstanceAs (Decidable (P s a ∧ Along exec P (step exec s a) as))

instance Issues.decidable (G : Nat → E → W → Cmd → Prop) [∀ i e w c, Decidable (G i e w c)] (s : Pool Ans W α)
    (a : Nat × E) : Decidable (Issues G s a) :=
  match hp : s.procs[a.1]? with
  | some (.call c _) =>
    decidable_of_iff (G a.1 a.2 s.world c)
      ⟨fun hg _ _ h => by cases hp.symm.trans h; exact hg, fun hi => hi c _ hp⟩
  | some (.ret _) => .isTrue fun _ _ h => nomatch hp.symm.trans h
  | none => .isTrue fun _ _ h => nomatch hp.symm.trans h

theorem along_of_forall (h : ∀ s a, P s a) :
    ∀ (as : List (Nat × E)) (s : Pool Ans W α), Along exec P s as
  | [], _ => trivial
  | _ :: as, s => ⟨h s _, along_of_forall h as _⟩

variable {exec} in
theorem along_any (s : Pool Ans W α) (as : List (Nat × E)) : Along exec (Issues fun _ _ _ _ => True) s as :=
  along_of_forall exec (fun _ _ _ _ _ => trivial) as s

theorem along_of_mem : ∀ (as : List (Nat × E)) (s : Pool Ans W α),
    (∀ s, ∀ a ∈ as, P s a) → Along exec P s as
  | [], _, _ => trivial
  | _ :: as, s, h => ⟨h s _ (List.mem_cons_self ..), along_of_mem as _ fun s a ha => h s a (List.mem_cons_of_mem _ ha)⟩

theorem along_append : ∀ (as bs : List (Nat × E)) (s : Pool Ans W α),
    Along exec P s (as ++ bs) ↔ Along exec P s as ∧ Along exec P (run exec s as) bs
  | [], _, _ => ⟨fun h => ⟨trivial, h⟩, fun h => h.2⟩
  | _ :: as, bs, _ => (and_congr_right fun _ => along_append as bs _).trans and_assoc.symm

theorem along_of_split : ∀ (cs : List (Nat × E)) (s : Pool Ans W α),
    (∀ as a bs, cs = as ++ a :: bs → P (run exec s as) a) → Along exec P s cs
  | [], _, _ => trivial
  | a :: cs, _, h => ⟨h [] a cs rfl, along_of_split cs _ fun as b bs heq => h (a :: as) b bs (congrArg _ heq)⟩

theorem along_congr {Q : Pool Ans W α → Nat × E → Prop} {I : Pool Ans W α → Prop}
    (hiff : ∀ s a, I s → (P s a ↔ Q s a)) (hstep : ∀ s a, I s → P s a → I (step exec s a)) :
    ∀ (as : List (Nat × E)) (s : Pool Ans W α), I s → (Along exec P s as ↔ Along exec Q s as)
  | [], _, _ => Iff.rfl
  | a :: as, s, h =>
    ⟨fun hp => ⟨(hiff s a h).mp hp.1, (along_congr hiff hstep as _ (hstep s a h hp.1)).mp hp.2⟩,
      fun hq => ⟨(hiff s a h).mpr hq.1, (along_congr hiff hstep as _ (hstep s a h ((hiff s a h).mpr hq.1))).mpr hq.2⟩⟩

theorem run_induction {I : Pool Ans W α → Prop} (hstep : ∀ s a, I s → P s a → I (step exec s a)) :
    ∀ (as : List (Nat × E)) (s : Pool Ans W α), I s → Along exec P s as → I (run exec s as)
  | [], _, h, _ => h
  | a :: as, s, h, hp => run_induction hstep as _ (hstep s a h hp.1) hp.2

end

variable {exec : Nat → E → W → (c : Cmd) → Option (Ans c × W)}

theorem Along.and {P Q : Pool Ans W α → Nat × E → Prop} :
    ∀ {as : List (Nat × E)} {s : Pool Ans W α}, Along exec P s as → Along exec Q s as →
      Along exec (fun s a => P s a ∧ Q s a) s as
  | [], _, _, _ => trivial
  | _ :: _, _, hp, hq => ⟨⟨hp.1, hq.1⟩, hp.2.and hq.2⟩

theorem Along.mono {P Q : Pool Ans W α → Nat × E → Prop} (h : ∀ s a, P s a → Q s a) :
    ∀ {as : List (Nat × E)} {s : Pool Ans W α}, Along exec P s as → Along exec Q s as
  | [], _, _ => trivial
  | _ :: _, _, hp => ⟨h _ _ hp.1, hp.2.mono h⟩

theorem procs_step {I : Nat → Prog Ans α → Prop} (hI : ∀ i c k r, I i (.call c k) → I i (k r)) {s : Pool Ans W α}
    (hs : ∀ i p, s.procs[i]? = some p → I i p) (a : Nat × E) : ∀ i p, (step exec s a).procs[i]? = some p → I i p := by
  rcases step_cases exec s a with h | ⟨c, k, r, w, hp, _, h⟩
  · rwa [h]
  · rw [h]
    intro i p hi
    by_cases hai : a.1 = i
    · subst hai
      have hlt : a.1 < s.procs.length := (List.getElem?_eq_some_iff.mp hp).1
      rw [List.getElem?_set_self hlt, Option.some.injEq] at hi
      exact hi ▸ hI _ c k r (hs _ _ hp)
    · rw [List.getElem?_set_ne hai] at hi
      exact hs i p hi

theorem procs_run {I : Nat → Prog Ans α → Prop} (hI : ∀ i c k r, I i (.call c k) → I i (k r)) :
    ∀ (as : List (Nat × E)) {s : Pool Ans W α},
      (∀ i p, s.procs[i]? = some p → I i p) → ∀ i p, (run exec s as).procs[i]? = some p → I i p
  | [], _, hs => hs
  | a :: as, _, hs => procs_run hI as (procs_step hI hs a)

theorem decides_run {P : (c : Cmd) → Ans c → Prop} {Q : α → Prop} {s : Pool Ans W α}
    (hs : ∀ (i : Nat) p, s.procs[i]? = some p → Prog.Decides P Q p) {before after : List (Nat × E)} {a : Nat × E}
    {c : Cmd} {k : Ans c → Prog Ans α} {r : Ans c} {w : W} (hp : (run exec s before).procs[a.1]? = some (.call c k))
    (hx : exec a.1 a.2 (run exec s before).world c = some (r, w)) (hr : P c r) {x : α}
    (hans : (run exec s (before ++ a :: after)).answer a.1 = some x) : Q x := by
  have hdecides := procs_run (I := fun _ p => Prog.Decides P Q p) (fun _ _ _ r h => (h r).2) before hs a.1 _ hp
  have hreturns : Prog.Returns Q (k r) := (hdecides r).1 hr
  have hnext := (step_of_exec exec hp hx).2
  rw [run_append, run_cons] at hans
  refine procs_run (I := fun i p => i = a.1 → Prog.Returns Q p) (fun _ _ _ r h hi => h hi r) after (fun i p hi heq => ?_)
    a.1 _ (answer_eq_some hans) rfl
  subst heq
  rw [Option.some.inj (hi.symm.trans hnext)]
  exact hreturns

/-! ## Commands a pool can issue -/

section
variable {exec : Nat → E → W → (c : Cmd) → Option (Ans c × W)} {P : Nat → Cmd → Prop}

def AllUse (P : Nat → Cmd → Prop) (s : Pool Ans W α) : Prop :=
  ∀ (i : Nat) (p : Prog Ans α), s.procs[i]? = some p → p.Uses (P i)

theorem uses_step {s : Pool Ans W α} (hs : s.AllUse P) (a : Nat × E) : (step exec s a).AllUse P :=
  procs_step (fun _ _ _ r h => h.2 r) hs a

theorem uses_run (as : List (Nat × E)) {s : Pool Ans W α} (hs : s.AllUse P) : (run exec s as).AllUse P :=
  procs_run (fun _ _ _ r h => h.2 r) as hs

theorem along_uses : ∀ (as : List (Nat × E)) {s : Pool Ans W α}, s.AllUse P →
    Along exec (Issues fun i _ _ c => P i c) s as
  | [], _, _ => trivial
  | _ :: as, _, hs => ⟨fun _ _ hp => (hs _ _ hp).1, along_uses as (uses_step hs _)⟩

end

/-! ## Invariants of the world -/

section
variable {exec : Nat → E → W → (c : Cmd) → Option (Ans c × W)}
  {G : Nat → E → W → Cmd → Prop} {inv : W → Prop}

theorem inv_step (hexec : ∀ i e w c r w', inv w → G i e w c → exec i e w c = some (r, w') → inv w')
    {s : Pool Ans W α} {a : Nat × E} (hs : inv s.world) (hG : Issues G s a) :
    inv (step exec s a).world := by
  rcases step_cases exec s a with h | ⟨c, k, r, w, hp, hx, h⟩
  · rwa [h]
  · rw [h]
    exact hexec _ _ _ _ _ _ hs (hG c k hp) hx

theorem inv_run (hexec : ∀ i e w c r w', inv w → G i e w c → exec i e w c = some (r, w') → inv w')
    {s : Pool Ans W α} (hs : inv s.world) {as : List (Nat × E)} (hG : Along exec (Issues G) s as) :
    inv (run exec s as).world :=
  run_induction exec (I := fun s => inv s.world) (fun _ _ h => inv_step hexec h) as s hs hG

/-- Where `G` says exactly which commands keep `inv`, a run keeps it throughout
if and only if all its commands are within `G`. -/
theorem inv_run_iff (hexec : ∀ i e w c, inv w → (G i e w c ↔ ∀ r w', exec i e w c = some (r, w') → inv w'))
    {s : Pool Ans W α} (hs : inv s.world) (as : List (Nat × E)) :
    Along exec (fun s a => inv (step exec s a).world) s as ↔ Along exec (Issues G) s as := by
  refine along_congr exec (I := fun s => inv s.world) (fun s a h => ?_) (fun s a _ h => h) as s hs
  cases hp : s.procs[a.1]? with
  | none => simp [step, Issues, hp, h]
  | some p =>
    cases p with
    | ret b => simp [step, Issues, hp, h]
    | call c k =>
      have hG : Issues G s a ↔ G a.1 a.2 s.world c := by
        constructor
        · exact fun hi => hi c k hp
        · intro hg c' k' hp'
          cases hp.symm.trans hp'
          exact hg
      rw [hG, hexec a.1 a.2 s.world c h]
      cases hx : exec a.1 a.2 s.world c with
      | none => simp [step, hp, hx, h]
      | some x =>
        simp only [step, hp, hx, Option.some.injEq]
        constructor
        · rintro hinv r w' rfl
          exact hinv
        · exact fun hall => hall x.1 x.2 rfl

end

/-! ## Handlers checked one at a time -/

section
variable (exec : Nat → E → W → (c : Cmd) → Option (Ans c × W))
  (G : Nat → E → W → Cmd → Prop) (inv : W → Prop) (rely : Nat → W → W → Prop)

/-- Handler `i`, about to run the program in a world that grew out of `w` by
moves of others, `rely i`, keeps `inv`, does only what the others rely on, and
returns within `post`. -/
def Safe (i : Nat) (post : W → α → Prop) : Prog Ans α → W → Prop
  | .ret a, w => post w a
  | .call c k, w => ∀ e w₁ r w₂, rely i w w₁ → inv w₁ → G i e w₁ c → exec i e w₁ c = some (r, w₂) →
      inv w₂ ∧ (∀ j, j ≠ i → rely j w₁ w₂) ∧ Safe i post (k r) w₂

variable {exec G inv rely}

variable {i : Nat} {post : W → α → Prop}

theorem Safe.bind {β : Type} {post : W → β → Prop} {f : α → Prog Ans β} :
    ∀ {p : Prog Ans α} {w : W}, Safe exec G inv rely i (fun w a => Safe exec G inv rely i post (f a) w) p w →
      Safe exec G inv rely i post (p >>= f) w
  | .ret _, _, h => h
  | .call c k, w, h => by
    intro e w₁ r w₂ hr hi hg hx
    obtain ⟨h₁, h₂, h₃⟩ := h e w₁ r w₂ hr hi hg hx
    exact ⟨h₁, h₂, Safe.bind h₃⟩

theorem Safe.mono {post' : W → α → Prop} (hpost : ∀ w a, post w a → post' w a) :
    ∀ {p : Prog Ans α} {w : W}, Safe exec G inv rely i post p w → Safe exec G inv rely i post' p w
  | .ret a, w, h => hpost w a h
  | .call c k, w, h => by
    intro e w₁ r w₂ hr hi hg hx
    obtain ⟨h₁, h₂, h₃⟩ := h e w₁ r w₂ hr hi hg hx
    exact ⟨h₁, h₂, h₃.mono hpost⟩

/-- What a program's commands do of themselves the others may rely on as well,
and what it returns in any case is known when it does. -/
theorem Safe.and_rely {P : Cmd → Prop} {Q : α → Prop} {rely' : Nat → W → W → Prop}
    (hexec : ∀ e w c r w', P c → exec i e w c = some (r, w') → ∀ j, rely' j w w') :
    ∀ {p : Prog Ans α} {w : W}, p.Uses P → p.Returns Q → Safe exec G inv rely i post p w →
      Safe exec G inv (fun j w w' => rely j w w' ∧ rely' j w w') i (fun w a => post w a ∧ Q a) p w
  | .ret _, _, _, hq, h => ⟨h, hq⟩
  | .call c k, w, hu, hq, h => by
    intro e w₁ r w₂ hr hi hg hx
    obtain ⟨h₁, h₂, h₃⟩ := h e w₁ r w₂ hr.1 hi hg hx
    exact ⟨h₁, fun j hj => ⟨h₂ j hj, hexec e w₁ c r w₂ hu.1 hx j⟩, Safe.and_rely hexec (hu.2 r) (hq r) h₃⟩

/-- A program all of whose commands keep `inv` and do what the others rely on
needs no further check; `keep` is what is known when it returns. -/
theorem Safe.of_uses {P : Cmd → Prop} {keep : W → Prop} (hrely : ∀ a b, keep a → rely i a b → keep b)
    (hexec : ∀ e w c r w', P c → inv w → keep w → G i e w c → exec i e w c = some (r, w') →
      inv w' ∧ (∀ j, j ≠ i → rely j w w') ∧ keep w') :
    ∀ {p : Prog Ans α} {w : W}, p.Uses P → keep w → Safe exec G inv rely i (fun w _ => keep w) p w
  | .ret _, _, _, h => h
  | .call c k, w, hu, h => by
    intro e w₁ r w₂ hr hi hg hx
    obtain ⟨h₁, h₂, h₃⟩ := hexec e w₁ c r w₂ hu.1 hi (hrely _ _ h hr) hg hx
    exact ⟨h₁, h₂, Safe.of_uses hrely hexec (hu.2 r) h₃⟩

theorem Safe.rely_left (htrans : ∀ i a b c, rely i a b → rely i b c → rely i a c) {c : Cmd} {k : Ans c → Prog Ans α}
    {w w' : W} (h : Safe exec G inv rely i post (.call c k) w) (hr : rely i w w') :
    Safe exec G inv rely i post (.call c k) w' :=
  fun e w₁ r w₂ hr' => h e w₁ r w₂ (htrans _ _ _ _ hr hr')

theorem Safe.later {later : W → W → Prop} (hrefl : ∀ w, later w w)
    (htrans : ∀ a b c, later a b → later b c → later a c) :
    ∀ {p : Prog Ans α} {w : W}, Safe exec G inv (fun _ => later) i post p w →
      Safe exec G inv (fun _ => later) i (fun w' a => later w w' ∧ post w' a) p w
  | .ret _, w, h => ⟨hrefl w, h⟩
  | .call c k, w, h => by
    intro e w₁ r w₂ hr hi hg hx
    obtain ⟨h₁, h₂, h₃⟩ := h e w₁ r w₂ hr hi hg hx
    have hstep : later w w₂ := htrans _ _ _ hr (h₂ (i + 1) (Nat.succ_ne_self i))
    exact ⟨h₁, h₂, (h₃.later hrefl htrans).mono fun w' a h => ⟨htrans _ _ _ hstep h.1, h.2⟩⟩

/-- One command of handler `i`, in a world within `pre`: it keeps `inv`, does
what everyone relies on, and answers within `gives`. -/
def Does (exec : Nat → E → W → (c : Cmd) → Option (Ans c × W)) (G : Nat → E → W → Cmd → Prop) (inv : W → Prop)
    (rely : Nat → W → W → Prop) (i : Nat) (c : Cmd) (pre : W → Prop) (gives : Ans c → W → Prop) : Prop :=
  ∀ e w r w', inv w → pre w → G i e w c → exec i e w c = some (r, w') → inv w' ∧ (∀ j, rely j w w') ∧ gives r w'

theorem Does.call {c : Cmd} {pre : W → Prop} {gives : Ans c → W → Prop} {k : Ans c → Prog Ans α} {w : W}
    (h : Does exec G inv rely i c pre gives) (htrans : ∀ a b c, rely i a b → rely i b c → rely i a c)
    (hpre : ∀ a b, pre a → rely i a b → pre b) (hw : pre w)
    (hk : ∀ r w', rely i w w' → gives r w' → Safe exec G inv rely i post (k r) w') :
    Safe exec G inv rely i post (.call c k) w := by
  intro e w₁ r w₂ hr hi hg hx
  obtain ⟨hi', hrely, hgives⟩ := h e w₁ r w₂ hi (hpre w w₁ hw hr) hg hx
  exact ⟨hi', fun j _ => hrely j, hk r w₂ (htrans _ _ _ hr (hrely i)) hgives⟩

theorem Does.mono {c : Cmd} {pre : W → Prop} {gives gives' : Ans c → W → Prop}
    (h : Does exec G inv rely i c pre gives) (hg : ∀ r w, gives r w → gives' r w) :
    Does exec G inv rely i c pre gives' := by
  intro e w r w' hi hpre hG hx
  obtain ⟨hi', hrely, hgives⟩ := h e w r w' hi hpre hG hx
  exact ⟨hi', hrely, hg r w' hgives⟩

structure Good (exec : Nat → E → W → (c : Cmd) → Option (Ans c × W)) (G : Nat → E → W → Cmd → Prop)
    (inv : W → Prop) (rely : Nat → W → W → Prop) (post : Nat → W → α → Prop) (s : Pool Ans W α) : Prop where
  world : inv s.world
  safe : ∀ i c k, s.procs[i]? = some (.call c k) → Safe exec G inv rely i (post i) (.call c k) s.world
  done : ∀ x ∈ s.returned, s.procs[x.1]? = some (.ret x.2.1)
  ret : ∀ i a, s.procs[i]? = some (.ret a) → ∃ w, post i w a ∧ rely i w s.world
  post : ∀ x ∈ s.returned, post x.1 x.2.2 x.2.1
  inv : ∀ x ∈ s.returned, inv x.2.2
  past : ∀ x ∈ s.returned, rely x.1 x.2.2 s.world
  order : s.returned.Pairwise fun later earlier => rely earlier.1 earlier.2.2 later.2.2

variable {post : Nat → W → α → Prop}

theorem forall_map {β : Type} {f : β → Prog Ans α} {calls : List β} {P : Nat → Prog Ans α → Prop}
    (h : ∀ i call, calls[i]? = some call → P i (f call)) (i : Nat) (p : Prog Ans α) (hp : (calls.map f)[i]? = some p) :
    P i p := by
  obtain ⟨call, hcall, rfl⟩ := Option.map_eq_some_iff.mp (List.getElem?_map ▸ hp)
  exact h i call hcall

theorem good_start (hrefl : ∀ i w, rely i w w) {w : W} {procs : List (Prog Ans α)} (hw : inv w)
    (hs : ∀ i p, procs[i]? = some p → Safe exec G inv rely i (post i) p w) :
    Good exec G inv rely post (start w procs) :=
  ⟨hw, fun i _ _ h => hs i _ h, by simp [start], fun i _ h => ⟨w, hs i _ h, hrefl i w⟩, by simp [start],
    by simp [start], by simp [start], by simp [start]⟩

theorem good_step (hrefl : ∀ i w, rely i w w) (htrans : ∀ i a b c, rely i a b → rely i b c → rely i a c)
    {s : Pool Ans W α} {a : Nat × E} (hs : Good exec G inv rely post s) (hG : Issues G s a) :
    Good exec G inv rely post (step exec s a) := by
  rcases step_cases exec s a with h | ⟨c, k, r, w, hp, hx, h⟩
  · rwa [h]
  rw [h]
  obtain ⟨hi, hr, hk⟩ := hs.safe a.1 c k hp _ _ _ _ (hrefl _ _) hs.world (hG c k hp) hx
  have hlt : a.1 < s.procs.length := (List.getElem?_eq_some_iff.mp hp).1
  -- the handler that moved had not returned
  have hne : ∀ x ∈ s.returned, x.1 ≠ a.1 := by
    intro x hx heq
    have := hs.done x hx
    rw [heq, hp] at this
    cases this
  have hpast : ∀ x ∈ s.returned, rely x.1 x.2.2 w := fun x hx => htrans _ _ _ _ (hs.past x hx) (hr _ (hne x hx))
  have hdone : ∀ x ∈ s.returned, (s.procs.set a.1 (k r))[x.1]? = some (.ret x.2.1) := by
    intro x hx
    rw [List.getElem?_set_ne (hne x hx).symm]
    exact hs.done x hx
  have hprocs : ∀ i c' k', (s.procs.set a.1 (k r))[i]? = some (.call c' k') →
      Safe exec G inv rely i (post i) (.call c' k') w := by
    intro i c' k' hi'
    by_cases hia : a.1 = i
    · subst hia
      rw [List.getElem?_set_self hlt, Option.some.injEq] at hi'
      exact hi' ▸ hk
    · rw [List.getElem?_set_ne hia] at hi'
      exact (hs.safe i c' k' hi').rely_left htrans (hr i (Ne.symm hia))
  have hret : ∀ i b, (s.procs.set a.1 (k r))[i]? = some (.ret b) → ∃ w₀, post i w₀ b ∧ rely i w₀ w := by
    intro i b hb
    by_cases hia : a.1 = i
    · subst hia
      rw [List.getElem?_set_self hlt, Option.some.injEq] at hb
      rw [hb] at hk
      exact ⟨w, hk, hrefl _ _⟩
    · rw [List.getElem?_set_ne hia] at hb
      obtain ⟨w₀, hw₀, hr₀⟩ := hs.ret i b hb
      exact ⟨w₀, hw₀, htrans _ _ _ _ hr₀ (hr i (Ne.symm hia))⟩
  cases hkr : k r with
  | call c' k' =>
    rw [hkr] at hprocs hdone hret
    exact ⟨hi, hprocs, hdone, hret, hs.post, hs.inv, hpast, hs.order⟩
  | ret b =>
    have hb : (s.procs.set a.1 (.ret b))[a.1]? = some (.ret b) := List.getElem?_set_self hlt
    rw [hkr] at hk hprocs hdone hret
    exact ⟨hi, hprocs, List.forall_mem_cons.mpr ⟨hb, hdone⟩, hret, List.forall_mem_cons.mpr ⟨hk, hs.post⟩,
      List.forall_mem_cons.mpr ⟨hi, hs.inv⟩, List.forall_mem_cons.mpr ⟨hrefl _ _, hpast⟩,
      List.pairwise_cons.mpr ⟨hpast, hs.order⟩⟩

theorem safe_run (hrefl : ∀ i w, rely i w w) (htrans : ∀ i a b c, rely i a b → rely i b c → rely i a c)
    {s : Pool Ans W α} (hs : Good exec G inv rely post s) {as : List (Nat × E)}
    (hG : Along exec (Issues G) s as) : Good exec G inv rely post (run exec s as) :=
  run_induction exec (I := Good exec G inv rely post) (fun _ _ h => good_step hrefl htrans h) as s hs hG

theorem safe_along (hrefl : ∀ i w, rely i w w) (htrans : ∀ i a b c, rely i a b → rely i b c → rely i a c) :
    ∀ (as : List (Nat × E)) {s : Pool Ans W α}, Good exec G inv rely post s → Along exec (Issues G) s as →
      Along exec (fun s a => inv (step exec s a).world) s as
  | [], _, _, _ => trivial
  | _ :: as, _, hs, hG =>
    have hnext := good_step hrefl htrans hs hG.1
    ⟨hnext.world, safe_along hrefl htrans as hnext hG.2⟩

theorem later_run {later : W → W → Prop} (hrefl : ∀ w, later w w) (htrans : ∀ a b c, later a b → later b c → later a c) :
    ∀ (as : List (Nat × E)) {s : Pool Ans W α}, Good exec G inv (fun _ => later) post s →
      Along exec (Issues G) s as → later s.world (run exec s as).world
  | [], s, _, _ => hrefl s.world
  | a :: as, s, hs, hG => by
    have hrest := later_run hrefl htrans as (good_step (fun _ => hrefl) (fun _ => htrans) hs hG.1) hG.2
    rcases step_cases exec s a with heq | ⟨c, k, r, w, hp, hx, heq⟩
    · rw [heq] at hrest
      rw [run_cons, heq]
      exact hrest
    · obtain ⟨-, hstep, -⟩ := hs.safe a.1 c k hp _ _ _ _ (hrefl _) hs.world (hG.1 c k hp) hx
      refine htrans _ _ _ (hstep (a.1 + 1) (Nat.succ_ne_self _)) ?_
      rw [heq] at hrest
      rw [run_cons, heq]
      exact hrest

end

/-! ## One handler among others -/

section
variable (exec : Nat → E → W → (c : Cmd) → Option (Ans c × W))

def visited (s : Pool Ans W α) : List (Nat × E) → List W
  | [] => [s.world]
  | a :: as => s.world :: visited (step exec s a) as

theorem world_mem_visited (s : Pool Ans W α) : ∀ as, s.world ∈ visited exec s as
  | [] => List.mem_singleton.mpr rfl
  | _ :: _ => List.mem_cons_self ..

theorem run_mem_visited : ∀ (as : List (Nat × E)) (s : Pool Ans W α), (run exec s as).world ∈ visited exec s as
  | [], _ => List.mem_singleton.mpr rfl
  | _ :: as, _ => List.mem_cons_of_mem _ (run_mem_visited as _)

theorem mem_visited_append {w : W} : ∀ (as bs : List (Nat × E)) (s : Pool Ans W α),
    w ∈ visited exec s (as ++ bs) ↔ w ∈ visited exec s as ∨ w ∈ visited exec (run exec s as) bs
  | [], bs, s => by
    have := world_mem_visited exec s bs
    simp only [List.nil_append, visited, List.mem_singleton, run_nil, iff_or_self]
    rintro rfl
    exact this
  | a :: as, bs, s => by
    rw [List.cons_append, visited, List.mem_cons, mem_visited_append as bs, visited, List.mem_cons, or_assoc, run_cons]

variable {exec} {G : Nat → E → W → Cmd → Prop} {i : Nat} {I : (W → Prop) → Prog Ans α → W → Prop}

theorem or_eq_self {V : W → Prop} {w : W} (h : V w) : (fun x => V x ∨ x = w) = V := by
  funext x
  simp only [eq_iff_iff, or_iff_left_iff_imp]
  rintro rfl
  exact h

theorem client_step
    (hmine : ∀ V e w c k r w', I V (.call c k) w → G i e w c → exec i e w c = some (r, w') →
      I (fun x => V x ∨ x = w') (k r) w')
    (hother : ∀ V p j e w c r w', j ≠ i → I V p w → G j e w c → exec j e w c = some (r, w') →
      I (fun x => V x ∨ x = w') p w')
    {s : Pool Ans W α} {V : W → Prop} {p : Prog Ans α} (a : Nat × E) (hp : s.procs[i]? = some p) (hV : V s.world)
    (hI : I V p s.world) (hG : Issues G s a) :
    ∃ p', (step exec s a).procs[i]? = some p' ∧
      I (fun x => V x ∨ x = (step exec s a).world) p' (step exec s a).world := by
  rcases step_cases exec s a with h | ⟨c, k, r, w, hpa, hx, h⟩
  · rw [h, or_eq_self hV]
    exact ⟨p, hp, hI⟩
  · rw [h]
    by_cases hai : a.1 = i
    · subst hai
      obtain rfl : p = .call c k := Option.some.inj (hp.symm.trans hpa)
      have hlt : a.1 < s.procs.length := (List.getElem?_eq_some_iff.mp hp).1
      exact ⟨k r, List.getElem?_set_self hlt, hmine _ _ _ _ _ _ _ hI (hG c k hpa) hx⟩
    · exact ⟨p, (List.getElem?_set_ne hai).trans hp, hother _ _ _ _ _ _ _ _ hai hI (hG c k hpa) hx⟩

/-- An invariant `I` of the worlds so far, of what handler `i` has yet to do,
and of the world holds after every run, if the commands of `i`, which advance
it, keep it, and those of the others as well. -/
theorem client_run
    (hmine : ∀ V e w c k r w', I V (.call c k) w → G i e w c → exec i e w c = some (r, w') →
      I (fun x => V x ∨ x = w') (k r) w')
    (hother : ∀ V p j e w c r w', j ≠ i → I V p w → G j e w c → exec j e w c = some (r, w') →
      I (fun x => V x ∨ x = w') p w') :
    ∀ (as : List (Nat × E)) {s : Pool Ans W α} {V : W → Prop} {p : Prog Ans α}, s.procs[i]? = some p →
      V s.world → I V p s.world → Along exec (Issues G) s as →
        ∃ p', (run exec s as).procs[i]? = some p' ∧
          I (fun x => V x ∨ x ∈ visited exec s as) p' (run exec s as).world
  | [], s, V, p, hp, hV, hI, _ => by
    refine ⟨p, hp, ?_⟩
    simp only [visited, List.mem_singleton, or_eq_self hV]
    exact hI
  | a :: as, s, V, p, hp, hV, hI, hG => by
    obtain ⟨p₁, hp₁, hI₁⟩ := client_step hmine hother a hp hV hI hG.1
    obtain ⟨p₂, hp₂, hI₂⟩ := client_run hmine hother as hp₁ (.inr rfl) hI₁ hG.2
    refine ⟨p₂, hp₂, ?_⟩
    have hmem := world_mem_visited exec (step exec s a) as
    have hset : (fun x => (V x ∨ x = (step exec s a).world) ∨ x ∈ visited exec (step exec s a) as) =
        fun x => V x ∨ x ∈ visited exec s (a :: as) := by
      funext x
      simp only [visited, List.mem_cons, eq_iff_iff]
      constructor
      · rintro ((h | rfl) | h)
        · exact .inl h
        · exact .inr (.inr hmem)
        · exact .inr (.inr h)
      · rintro (h | rfl | h)
        · exact .inl (.inl h)
        · exact .inl (.inl hV)
        · exact .inr h
    rw [← hset]
    exact hI₂

end

end Pool

end GameServer
