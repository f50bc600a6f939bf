import GameServer.Prog

/-!
# The steps of a run

`Pool.trace` lists every step of a run: who moved, the world before and the
world after. `Pool.record` runs the same commands over a world that carries the
list of the steps so far, so that the rules about handlers can speak of the
past; `Pool.safe_trace` brings what they prove back to the plain run.
-/

namespace GameServer.Pool

variable {Cmd : Type} {Ans : Cmd → Type} {W E α : Type}

structure Step (W : Type) where
  pid : Nat
  old : W
  new : W

abbrev Past (W : Type) := W × List (Step W)

def Visited (p : Past W) (u : W) : Prop := u = p.1 ∨ ∃ m ∈ p.2, u = m.old ∨ u = m.new

theorem visited_step {p : Past W} {i : Nat} {w u : W} (h : Visited (w, ⟨i, p.1, w⟩ :: p.2) u) : u = w ∨ Visited p u := by
  rcases h with rfl | ⟨m, hm, hu⟩
  · exact .inl rfl
  · rcases List.mem_cons.mp hm with rfl | hm
    · rcases hu with rfl | rfl
      · exact .inr (.inl rfl)
      · exact .inl rfl
    · exact .inr (.inr ⟨m, hm, hu⟩)

theorem Visited.push {p : Past W} {u : W} (h : Visited p u) (i : Nat) (w : W) : Visited (w, ⟨i, p.1, w⟩ :: p.2) u := by
  rcases h with rfl | ⟨m, hm, hu⟩
  · exact .inr ⟨_, List.mem_cons_self .., .inl rfl⟩
  · exact .inr ⟨m, List.mem_cons_of_mem _ hm, hu⟩

section
variable (exec : Nat → E → W → (c : Cmd) → Option (Ans c × W))

def trace (s : Pool Ans W α) : List (Nat × E) → List (Step W)
  | [] => []
  | a :: as => ⟨a.1, s.world, (step exec s a).world⟩ :: trace (step exec s a) as

def record (i : Nat) (e : E) (w : Past W) (c : Cmd) : Option (Ans c × Past W) :=
  (exec i e w.1 c).map fun (r, w') => (r, w', ⟨i, w.1, w'⟩ :: w.2)

variable {exec}

theorem trace_append : ∀ (as bs : List (Nat × E)) (s : Pool Ans W α),
    trace exec s (as ++ bs) = trace exec s as ++ trace exec (run exec s as) bs
  | [], _, _ => rfl
  | _ :: as, bs, _ => congrArg _ (trace_append as bs _)

theorem record_eq_some {i : Nat} {e : E} {p p' : Past W} {c : Cmd} {r : Ans c} (h : record exec i e p c = some (r, p')) :
    ∃ w, exec i e p.1 c = some (r, w) ∧ p' = (w, ⟨i, p.1, w⟩ :: p.2) := by
  simp only [record, Option.map_eq_some_iff] at h
  obtain ⟨⟨r', w⟩, hx, heq⟩ := h
  cases heq
  exact ⟨w, hx, rfl⟩

structure Records (t : Pool Ans (Past W) α) (s : Pool Ans W α) : Prop where
  world : t.world.1 = s.world
  procs : t.procs = s.procs
  returned : t.returned.map (fun x => (x.1, x.2.1, x.2.2.1)) = s.returned

theorem records_step {t : Pool Ans (Past W) α} {s : Pool Ans W α} (h : Records t s) (a : Nat × E) :
    Records (step (record exec) t a) (step exec s a) ∧
      ((step exec s a).world = s.world ∧ (step (record exec) t a).world.2 = t.world.2 ∨
        (step (record exec) t a).world.2 = ⟨a.1, s.world, (step exec s a).world⟩ :: t.world.2) := by
  unfold step
  rw [h.procs]
  split
  · rename_i c k hp
    cases hx : exec a.1 a.2 s.world c with
    | none =>
      simp only [record, h.world, hx, Option.map_none]
      exact ⟨h, .inl ⟨trivial, trivial⟩⟩
    | some rw =>
      obtain ⟨r, w⟩ := rw
      simp only [record, h.world, hx, Option.map_some]
      refine ⟨⟨rfl, rfl, ?_⟩, .inr trivial⟩
      cases k r with
      | ret b => simp [noteReturn, h.returned]
      | call _ _ => simp [noteReturn, h.returned]
  · exact ⟨h, .inl ⟨rfl, rfl⟩⟩

theorem records_run : ∀ (as : List (Nat × E)) {t : Pool Ans (Past W) α} {s : Pool Ans W α}, Records t s →
    Records (run (record exec) t as) (run exec s as) ∧
      (run (record exec) t as).world.2.length ≤ t.world.2.length + as.length ∧
      (∀ m ∈ (run (record exec) t as).world.2, m ∈ t.world.2 ∨ m ∈ trace exec s as) ∧
      ∀ m, m ∈ t.world.2 ∨ m ∈ trace exec s as → m.old = m.new ∨ m ∈ (run (record exec) t as).world.2
  | [], t, s, h => ⟨h, Nat.le_refl _, fun m hm => .inl hm, fun m hm => .inr (hm.resolve_right (List.not_mem_nil))⟩
  | a :: as, t, s, h => by
    obtain ⟨h₁, hmoved⟩ := records_step h a
    obtain ⟨h₂, hlen, hsub, hsup⟩ := records_run as h₁
    refine ⟨h₂, ?_, fun m hm => ?_, fun m hm => ?_⟩
    · rw [List.length_cons, Nat.add_comm as.length, ← Nat.add_assoc]
      refine Nat.le_trans hlen (Nat.add_le_add_right ?_ _)
      rcases hmoved with ⟨-, heq⟩ | heq
      · exact heq ▸ Nat.le_succ _
      · exact heq ▸ Nat.le_refl _
    · rcases hsub m hm with hm | hm
      · rcases hmoved with ⟨-, heq⟩ | heq
        · exact .inl (heq ▸ hm)
        · rw [heq] at hm
          rcases List.mem_cons.mp hm with rfl | hm
          · exact .inr (List.mem_cons_self ..)
          · exact .inl hm
      · exact .inr (List.mem_cons_of_mem _ hm)
    · rcases hmoved with ⟨hsame, heq⟩ | heq
      · rcases hm with hm | hm
        · exact hsup m (.inl (heq ▸ hm))
        · rcases List.mem_cons.mp hm with rfl | hm
          · exact .inl hsame.symm
          · exact hsup m (.inr hm)
      · rcases hm with hm | hm
        · exact hsup m (.inl (heq ▸ List.mem_cons_of_mem _ hm))
        · rcases List.mem_cons.mp hm with rfl | hm
          · exact hsup _ (.inl (heq ▸ List.mem_cons_self ..))
          · exact hsup m (.inr hm)

variable {G : Nat → E → W → Cmd → Prop} {inv : Past W → Prop} {rely : Nat → Past W → Past W → Prop}
  {post : Nat → Past W → α → Prop} {procs : List (Prog Ans α)} {as : List (Nat × E)}

theorem along_record : ∀ {as : List (Nat × E)} {t : Pool Ans (Past W) α} {s : Pool Ans W α},
    Records t s → Along exec (Issues G) s as → Along (record exec) (Issues fun i e w c => G i e w.1 c) t as
  | [], _, _, _, _ => trivial
  | _ :: _, t, s, h, hG => by
    refine ⟨fun c k hp => ?_, along_record (records_step h _).1 hG.2⟩
    rw [h.procs] at hp
    rw [h.world]
    exact hG.1 c k hp

theorem mem_visited_of_trace {m : Step W} : ∀ (as : List (Nat × E)) (s : Pool Ans W α), m ∈ trace exec s as →
    m.old ∈ visited exec s as ∧ m.new ∈ visited exec s as
  | a :: as, s, h => by
    rcases List.mem_cons.mp h with rfl | h
    · exact ⟨List.mem_cons_self .., List.mem_cons_of_mem _ (world_mem_visited exec _ as)⟩
    · obtain ⟨hold, hnew⟩ := mem_visited_of_trace as _ h
      exact ⟨List.mem_cons_of_mem _ hold, List.mem_cons_of_mem _ hnew⟩

theorem visited_of_mem {p : Past W} {u : W} : ∀ (as : List (Nat × E)) (s : Pool Ans W α), p.1 = (run exec s as).world →
    (∀ m ∈ trace exec s as, m.old = m.new ∨ m ∈ p.2) → u ∈ visited exec s as → Visited p u
  | [], _, hw, _, hu => .inl ((List.mem_singleton.mp hu).trans hw.symm)
  | a :: as, s, hw, hsup, hu => by
    have ih : u ∈ visited exec (step exec s a) as → Visited p u :=
      visited_of_mem as _ hw fun m hm => hsup m (List.mem_cons_of_mem _ hm)
    rcases List.mem_cons.mp hu with rfl | hu
    · rcases hsup _ (List.mem_cons_self ..) with heq | hm
      · rw [show s.world = (step exec s a).world from heq] at ih ⊢
        exact ih (world_mem_visited exec _ as)
      · exact .inr ⟨_, hm, .inl rfl⟩
    · exact ih hu

theorem mem_trace_append (as bs : List (Nat × E)) (a : Nat × E) (s : Pool Ans W α) :
    ⟨a.1, (run exec s as).world, (run exec s (as ++ [a])).world⟩ ∈ trace exec s (as ++ a :: bs) := by
  rw [trace_append, run_append]
  exact List.mem_append_right _ (List.mem_cons_self ..)

theorem visited_of_append {p : Past W} {s : Pool Ans W α} : ∀ (bs as : List (Nat × E)),
    p.1 = (run exec s (as ++ bs)).world → (∀ m ∈ trace exec s (as ++ bs), m.old = m.new ∨ m ∈ p.2) →
      Visited p (run exec s as).world
  | [], as, hw, _ => .inl (by rw [hw, List.append_nil])
  | b :: bs, as, hw, hsup => by
    have hsplit : as ++ b :: bs = (as ++ [b]) ++ bs := by simp
    rcases hsup _ (mem_trace_append as bs b s) with heq | hm
    · rw [show (run exec s as).world = _ from heq]
      exact visited_of_append bs (as ++ [b]) (hsplit ▸ hw) (hsplit ▸ hsup)
    · exact .inr ⟨_, hm, .inl rfl⟩

theorem log_run : ∀ (as : List (Nat × E)) {t : Pool Ans (Past W) α} {s : Pool Ans W α}, Records t s →
    ∃ log, (run (record exec) t as).world.2 = log ++ t.world.2 ∧ ∀ m ∈ log, m ∈ trace exec s as
  | [], _, _, _ => ⟨[], rfl, fun _ hm => hm⟩
  | a :: as, t, s, h => by
    obtain ⟨h₁, hmoved⟩ := records_step h a
    obtain ⟨log, heq, hsub⟩ := log_run as h₁
    rcases hmoved with ⟨-, hsame⟩ | hnew
    · exact ⟨log, by rw [run_cons, heq, hsame], fun m hm => List.mem_cons_of_mem _ (hsub m hm)⟩
    · refine ⟨log ++ [⟨a.1, s.world, (step exec s a).world⟩], by rw [run_cons, heq, hnew]; simp, fun m hm => ?_⟩
      rcases List.mem_append.mp hm with hm | hm
      · exact List.mem_cons_of_mem _ (hsub m hm)
      · rw [List.mem_singleton.mp hm]
        exact List.mem_cons_self ..

section

variable (hrefl : ∀ i w, rely i w w) (htrans : ∀ i a b c, rely i a b → rely i b c → rely i a c) {w : W}
  (hw : inv (w, [])) (hs : ∀ i p, procs[i]? = some p →
    Safe (record exec) (fun i e w c => G i e w.1 c) inv rely i (post i) p (w, []))
include hrefl htrans hw hs

theorem safe_trace (hG : Along exec (Issues G) (start w procs) as) :
    ∃ t, Records t (run exec (start w procs) as) ∧
      Good (record exec) (fun i e w c => G i e w.1 c) inv rely post t ∧ t.world.2.length ≤ as.length ∧
      (∀ m ∈ t.world.2, m ∈ trace exec (start w procs) as) ∧
      ∀ m ∈ trace exec (start w procs) as, m.old = m.new ∨ m ∈ t.world.2 := by
  have hrec : Records (start ((w, []) : Past W) procs) (start w procs) := ⟨rfl, rfl, rfl⟩
  obtain ⟨h₁, hlen, hsub, hsup⟩ := records_run as hrec
  refine ⟨_, h₁, safe_run hrefl htrans (good_start hrefl hw hs) (along_record hrec hG), ?_, fun m hm => ?_, fun m hm => ?_⟩
  · rwa [Nat.add_comm] at hlen
  · exact (hsub m hm).resolve_left List.not_mem_nil
  · exact hsup m (.inr hm)

theorem safe_next {a : Nat × E}
    (hG : Along exec (Issues G) (start w procs) (as ++ [a])) {c : Cmd} {k : Ans c → Prog Ans α} {r : Ans c} {w' : W}
    (hp : (run exec (start w procs) as).procs[a.1]? = some (.call c k))
    (hx : exec a.1 a.2 (run exec (start w procs) as).world c = some (r, w')) :
    ∃ log, inv (w', ⟨a.1, (run exec (start w procs) as).world, w'⟩ :: log) ∧
      Safe (record exec) (fun i e w c => G i e w.1 c) inv rely a.1 (post a.1) (k r)
        (w', ⟨a.1, (run exec (start w procs) as).world, w'⟩ :: log) := by
  obtain ⟨hG₁, hG₂, -⟩ := (along_append exec as [a] _).mp hG
  obtain ⟨t, hrec, hgood, -⟩ := safe_trace hrefl htrans hw hs hG₁
  have hx' : record exec a.1 a.2 t.world c = some (r, w', ⟨a.1, t.world.1, w'⟩ :: t.world.2) := by
    simp only [record, hrec.world, hx, Option.map_some]
  have hg : G a.1 a.2 t.world.1 c := hrec.world ▸ hG₂ c k hp
  obtain ⟨hinv, -, hsafe⟩ := hgood.safe a.1 c k (hrec.procs ▸ hp) _ _ _ _ (hrefl _ _) hgood.world hg hx'
  rw [← hrec.world]
  exact ⟨_, hinv, hsafe⟩

theorem safe_since {bs : List (Nat × E)}
    {a : Nat × E} (hG : Along exec (Issues G) (start w procs) (as ++ a :: bs))
    (hne : (step exec (run exec (start w procs) as) a).world ≠ (run exec (start w procs) as).world) :
    ∃ p log before, inv p ∧ p.1 = (run exec (start w procs) (as ++ a :: bs)).world ∧
      p.2 = log ++ ⟨a.1, (run exec (start w procs) as).world, (step exec (run exec (start w procs) as) a).world⟩ :: before ∧
      ∀ m ∈ log, m ∈ trace exec (step exec (run exec (start w procs) as) a) bs := by
  have hrec : Records (start ((w, []) : Past W) procs) (start w procs) := ⟨rfl, rfl, rfl⟩
  have hgood := safe_run hrefl htrans (good_start hrefl hw hs) (along_record hrec hG)
  have h₁ : Records (run (record exec) _ as) (run exec _ as) := (records_run as hrec).1
  obtain ⟨h₂, hmoved⟩ := records_step h₁ a
  obtain ⟨log, heq, hsub⟩ := log_run bs h₂
  rw [hmoved.resolve_left fun h => hne h.1, ← run_cons, ← run_append] at heq
  exact ⟨_, log, _, hgood.world, (records_run (as ++ a :: bs) hrec).1.world, heq, hsub⟩

/-- What the rule says of a plain run: its worlds are those of a past that keeps
the invariant, and each answer was within its postcondition when it was given. -/
theorem safe_past (hG : Along exec (Issues G) (start w procs) as) :
    ∃ p : Past W, inv p ∧ p.1 = (run exec (start w procs) as).world ∧
      (∀ u, Visited p u ↔ u ∈ visited exec (start w procs) as) ∧ (∀ m ∈ p.2, m ∈ trace exec (start w procs) as) ∧
      ∀ i a, (run exec (start w procs) as).answer i = some a → ∃ q, post i q a ∧ rely i q p := by
  obtain ⟨t, hrec, hgood, -, hsub, hsup⟩ := safe_trace hrefl htrans hw hs hG
  refine ⟨t.world, hgood.world, hrec.world, fun u => ⟨fun hu => ?_, fun hu => ?_⟩, hsub, fun i a ha => ?_⟩
  · rcases hu with rfl | ⟨m, hm, hu⟩
    · rw [hrec.world]
      exact run_mem_visited exec as _
    · obtain ⟨hold, hnew⟩ := mem_visited_of_trace as _ (hsub m hm)
      rcases hu with rfl | rfl
      · exact hold
      · exact hnew
  · exact visited_of_mem as _ hrec.world hsup hu
  · exact hgood.ret i a (by rw [hrec.procs]; exact answer_eq_some ha)

end

/-! ## Handlers whose answers are known -/

def AnswersWithin (exec : Nat → E → W → (c : Cmd) → Option (Ans c × W)) (A : (c : Cmd) → Ans c → Prop) (i : Nat)
    (s : Pool Ans W α) (a : Nat × E) : Prop :=
  a.1 = i → ∀ c k r w, s.procs[i]? = some (.call c k) → exec i a.2 s.world c = some (r, w) → A c r

theorem within_run {P : Cmd → Prop} {A : (c : Cmd) → Ans c → Prop} {Q : α → Prop} {i : Nat} :
    ∀ (as : List (Nat × E)) {s : Pool Ans W α} {p : Prog Ans α}, s.procs[i]? = some p → p.Within P A Q →
      Along exec (AnswersWithin exec A i) s as →
      (∃ p', (run exec s as).procs[i]? = some p' ∧ p'.Within P A Q) ∧ ∀ m ∈ trace exec s as, m.pid = i →
        m.new = m.old ∨ ∃ e c r, P c ∧ exec i e m.old c = some (r, m.new)
  | [], _, p, hp, h, _ => ⟨⟨p, hp, h⟩, fun _ hm => absurd hm (List.not_mem_nil)⟩
  | a :: as, s, p, hp, h, ⟨ha, has⟩ => by
    by_cases hi : a.1 = i
    · rcases step_cases exec s a with heq | ⟨c, k, r, w, hpa, hx, -⟩
      · obtain ⟨hend, htrace⟩ := within_run as (s := step exec s a) (heq.symm ▸ hp) h has
        refine ⟨hend, fun m hm hpid => ?_⟩
        rcases List.mem_cons.mp hm with rfl | hm
        · exact .inl (congrArg world heq)
        · exact htrace m hm hpid
      · subst hi
        obtain rfl : p = .call c k := Option.some.inj (hp.symm.trans hpa)
        obtain ⟨hworld, hnext⟩ := step_of_exec exec hpa hx
        obtain ⟨hend, htrace⟩ := within_run as hnext (h.2 r (ha rfl c k r w hpa hx)) has
        refine ⟨hend, fun m hm hpid => ?_⟩
        rcases List.mem_cons.mp hm with rfl | hm
        · exact .inr ⟨a.2, c, r, h.1, hworld.symm ▸ hx⟩
        · exact htrace m hm hpid
    · obtain ⟨hend, htrace⟩ := within_run as (s := step exec s a) ((procs_step_of_ne exec hi).trans hp) h has
      refine ⟨hend, fun m hm hpid => ?_⟩
      rcases List.mem_cons.mp hm with rfl | hm
      · exact absurd hpid hi
      · exact htrace m hm hpid

/-! ## Handlers that change nothing -/

structure AgreeOff (i : Nat) (s s' : Pool Ans W α) : Prop where
  world : s.world = s'.world
  procs : ∀ j, j ≠ i → s.procs[j]? = s'.procs[j]?

theorem AgreeOff.step {i : Nat} {s s' : Pool Ans W α} (h : AgreeOff i s s') {a : Nat × E} (ha : a.1 ≠ i) :
    AgreeOff i (step exec s a) (step exec s' a) := by
  have hp := h.procs a.1 ha
  unfold Pool.step
  rw [← hp, ← h.world]
  split
  · rename_i c k hk
    split
    · rename_i r w _
      refine ⟨rfl, fun j hj => ?_⟩
      by_cases hja : a.1 = j
      · subst hja
        rw [List.getElem?_set_self (List.getElem?_eq_some_iff.mp hk).1,
          List.getElem?_set_self (List.getElem?_eq_some_iff.mp (hp.symm.trans hk)).1]
      · rw [List.getElem?_set_ne hja, List.getElem?_set_ne hja]
        exact h.procs j hj
    · exact h
  · exact h

theorem AgreeOff.run {i : Nat} : ∀ (as : List (Nat × E)) {s s' : Pool Ans W α}, AgreeOff i s s' →
    (∀ a ∈ as, a.1 ≠ i) → AgreeOff i (run exec s as) (run exec s' as)
  | [], _, _, h, _ => h
  | a :: as, _, _, h, has =>
    AgreeOff.run as (h.step (has a (List.mem_cons_self ..))) fun b hb => has b (List.mem_cons_of_mem _ hb)

theorem run_filter {i : Nat} : ∀ (as : List (Nat × E)) {s s' : Pool Ans W α}, AgreeOff i s s' →
    Along exec (fun s a => a.1 = i → (Pool.step exec s a).world = s.world) s as →
      AgreeOff i (run exec s as) (run exec s' (as.filter (·.1 ≠ i)))
  | [], _, _, h, _ => h
  | a :: as, s, s', h, hstill => by
    by_cases ha : a.1 = i
    · rw [List.filter_cons_of_neg (by simpa using ha)]
      refine run_filter as ⟨(hstill.1 ha).trans h.world, fun j hj => ?_⟩ hstill.2
      rw [← h.procs j hj]
      rcases step_cases exec s a with heq | ⟨c, k, r, w, -, -, heq⟩
      · rw [heq]
      · rw [heq]
        exact List.getElem?_set_ne (ha ▸ hj.symm)
    · rw [List.filter_cons_of_pos (by simpa using ha)]
      exact run_filter as (h.step ha) hstill.2

end

end GameServer.Pool
