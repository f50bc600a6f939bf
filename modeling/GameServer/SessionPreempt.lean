import GameServer.SessionExec
import GameServer.Trace

/-!
# One open connection per account

Logins and resumes over one Redis store. A claim of the account's slot hands
the claimer the previous holder, whom it tells to close, on its own gateway and
by a broadcast to all. If a connection is bound to its session before a notice
that names it is handled on its gateway, then once all is done every connection
but the holder of the slot is closed. Without that condition two may stay open.
-/

namespace GameServer.Gateway

open Pool (Past Visited)

/-! ## Connections -/

theorem lookup_preempt (w : World) (g : Nat) (n : Notice) (c : String) :
    (w.preempt g n).connections.lookup c = (w.connections.lookup c).map fun x =>
      if c = n.connectionID ∧ x.gateway = g ∧ x.sessionID = n.sessionID ∧
        (n.connectionEpoch = 0 ∨ x.sessionEpoch = n.connectionEpoch) then { x with closed := true } else x := by
  by_cases hc : c = n.connectionID
  · subst hc
    unfold World.preempt
    cases hx : w.connections.lookup n.connectionID with
    | none => simp [hx]
    | some x =>
      simp only [Option.map_some, true_and]
      split
      · rename_i hg
        rw [if_neg fun h => hg h.1, hx]
      · split
        · rename_i hg hne
          rw [if_neg, hx]
          rintro ⟨-, h₁, h₂⟩
          rcases hne with h | ⟨h, h'⟩
          · exact h h₁
          · exact h₂.elim h h'
        · rename_i hg heq
          rw [AList.lookup_insert, if_pos]
          simp only [not_or, not_and, not_not] at hg heq
          refine ⟨hg, heq.1, ?_⟩
          by_cases h0 : n.connectionEpoch = 0
          · exact .inl h0
          · exact .inr (heq.2 h0)
  · have hsame : (w.preempt g n).connections.lookup c = w.connections.lookup c := by
      unfold World.preempt
      split
      · rfl
      · split
        · rfl
        · split
          · rfl
          · exact AList.lookup_insert_ne hc
    simp only [hsame, hc, false_and, if_false, Option.map_id']

theorem lookup_bindSession (w : World) (connectionID sessionID : String) (epoch : Nat) (c : String) :
    (w.bindSession connectionID sessionID epoch).connections.lookup c = (w.connections.lookup c).map fun x =>
      if c = connectionID then { x with sessionID, sessionEpoch := epoch } else x := by
  unfold World.bindSession
  by_cases hc : c = connectionID
  · subst hc
    cases hx : w.connections.lookup c with
    | none => simp [hx]
    | some x => simp only [AList.lookup_insert, Option.map_some, if_true]
  · split
    · simp only [hc, if_false, Option.map_id']
    · simp only [hc, if_false, Option.map_id']
      exact AList.lookup_insert_ne hc

def Call.connection : Call → Option (Nat × String)
  | .login m connectionID _ _ => some (m.index, connectionID)
  | .resumeLogin m connectionID _ _ => some (m.index, connectionID)
  | _ => none

def Handled (w : World) (r : Record) : Prop :=
  ∃ x, w.connections.lookup r.connectionID = some x ∧ (x.closed = true ∨ r.notice ∈ w.inbox x.gateway)

def Held (p : Past World) (accountID : String) (r : Record) : Prop :=
  ∃ u, Visited p u ∧ u.kept (.account accountID) = some r

def Took (m : Pool.Step World) (r : Record) : Prop :=
  ∃ accountID r', m.old.kept (.account accountID) = some r ∧ m.new.kept (.account accountID) = some r' ∧ r ≠ r'

def Unclaimed (p : Past World) (connectionID : String) : Prop :=
  ∀ accountID r, Held p accountID r → r.connectionID ≠ connectionID

def Timely (e : Env) (w : World) : Prop := ∀ x ∈ w.data.entries, w.clock + e.delay < x.2.deadline

def BoundFirst (w : World) : Cmd → Prop
  | .deliver g => ∀ n ∈ (w.inbox g).head?, n.sessionID ≠ "" →
      ∀ x ∈ w.connections.lookup n.connectionID, x.gateway = g → x.sessionID ≠ ""
  | _ => True

instance (e : Env) (w : World) : Decidable (Timely e w) :=
  inferInstanceAs (Decidable (∀ x ∈ w.data.entries, w.clock + e.delay < x.2.deadline))

instance (w : World) : (c : Cmd) → Decidable (BoundFirst w c)
  | .deliver g => inferInstanceAs (Decidable (∀ n ∈ (w.inbox g).head?, n.sessionID ≠ "" →
      ∀ x ∈ w.connections.lookup n.connectionID, x.gateway = g → x.sessionID ≠ ""))
  | .now | .randomID | .create _ | .get _ | .compareAndSwap _ _ | .delete _ | .claimAccount _ _ | .releaseAccount _ _
  | .enter _ _ _ _ | .leave _ _ _ | .emit _ | .preempt _ _ | .publish _ | .bindSession _ _ _ | .schedule _ _
  | .fire _ => .isTrue trivial

def Reaches (e : Env) : Cmd → Prop
  | .publish _ => e.fail = none
  | _ => True

instance (e : Env) : (c : Cmd) → Decidable (Reaches e c)
  | .publish _ => inferInstanceAs (Decidable (e.fail = none))
  | .now | .randomID | .create _ | .get _ | .compareAndSwap _ _ | .delete _ | .claimAccount _ _ | .releaseAccount _ _
  | .enter _ _ _ _ | .leave _ _ _ | .emit _ | .preempt _ _ | .deliver _ | .bindSession _ _ _ | .schedule _ _
  | .fire _ => .isTrue trivial

namespace Slot

section
variable (conn : Nat → Option String)

structure Rely (i : Nat) (p p' : Past World) : Prop where
  handled : ∀ accountID r, Held p accountID r → Handled p.1 r → Handled p'.1 r
  visited : ∀ u, Visited p u → Visited p' u
  mine : ∀ m ∈ p'.2, m.pid = i → m ∈ p.2
  unclaimed : ∀ c, conn i = some c → Unclaimed p c → Unclaimed p' c

/-- The invariant of all runs. A connection holds a slot with one record only,
which is also what it is bound to and what notices for it say. -/
structure Inv (p : Past World) : Prop where
  redis : p.1.store = .redis
  random : ∀ k r, p.1.kept k = some r → isRandomID r.sessionID = true
  known : ∀ i c, conn i = some c → ∃ x, p.1.connections.lookup c = some x ∧ x.gateway < p.1.gateways
  held : ∀ accountID r, Held p accountID r → isRandomID r.sessionID = true ∧ ∃ i, conn i = some r.connectionID
  unique : ∀ a a' r r', Held p a r → Held p a' r' → r.connectionID = r'.connectionID → r = r'
  bound : ∀ i c x, conn i = some c → p.1.connections.lookup c = some x → x.sessionID ≠ "" →
    ∃ a r, Held p a r ∧ r.notice = ⟨x.sessionID, c, x.sessionEpoch⟩
  told : ∀ g, ∀ n ∈ p.1.inbox g, n.sessionID ≠ "" → ∃ a r, Held p a r ∧ r.notice = n
  holder : ∀ a r, Held p a r → p.1.kept (.account a) = some r ∨ ∃ m ∈ p.2, Took m r
  takers : ∀ m ∈ p.2, ∀ r, Took m r → conn m.pid ≠ none

def Slots (i : Nat) (p : Past World) (w' : World) : Prop :=
  (∀ a, w'.kept (.account a) = p.1.kept (.account a)) ∨
    ∃ a₀ r₀, conn i = some r₀.connectionID ∧ Unclaimed p r₀.connectionID ∧ isRandomID r₀.sessionID = true ∧
      ∀ a, w'.kept (.account a) = if a = a₀ then some r₀ else p.1.kept (.account a)

end

structure Wires (conn : Nat → Option String) (p : Past World) (w' : World) : Prop where
  store : w'.store = p.1.store
  gateways : w'.gateways = p.1.gateways
  conns : ∀ c x, p.1.connections.lookup c = some x → ∃ x', w'.connections.lookup c = some x' ∧ x'.gateway = x.gateway
  bound : ∀ i c x, conn i = some c → w'.connections.lookup c = some x → x.sessionID ≠ "" →
    ∃ a r, Held p a r ∧ r.notice = ⟨x.sessionID, c, x.sessionEpoch⟩
  told : ∀ g, ∀ n ∈ w'.inbox g, n.sessionID ≠ "" → ∃ a r, Held p a r ∧ r.notice = n

structure Net (conn : Nat → Option String) (p : Past World) (w' : World) : Prop extends Wires conn p w' where
  handled : ∀ a r, Held p a r → Handled p.1 r → Handled w' r

section
variable {conn : Nat → Option String} {i : Nat} {p : Past World} {w' : World}

theorem Rely.refl (i : Nat) (p : Past World) : Rely conn i p p :=
  ⟨fun _ _ _ h => h, fun _ h => h, fun _ h _ => h, fun _ _ h => h⟩

variable {r : Record}

theorem held_mono {p p' : Past World} (h : ∀ u, Visited p u → Visited p' u) {a : String} (hr : Held p a r) :
    Held p' a r :=
  hr.imp fun u hu => ⟨h u hu.1, hu.2⟩

theorem Rely.trans (i : Nat) (a b c : Past World) (h : Rely conn i a b) (h' : Rely conn i b c) : Rely conn i a c :=
  ⟨fun acc r hr hh => h'.handled acc r (held_mono h.visited hr) (h.handled acc r hr hh),
    fun u hu => h'.visited u (h.visited u hu), fun m hm hi => h.mine m (h'.mine m hm hi) hi,
    fun c hc hu => h'.unclaimed c hc (h.unclaimed c hc hu)⟩

theorem held_step {a : String} (h : Held (w', ⟨i, p.1, w'⟩ :: p.2) a r) :
    Held p a r ∨ w'.kept (.account a) = some r := by
  obtain ⟨u, hu, hr⟩ := h
  rcases Pool.visited_step hu with rfl | hu
  · exact .inr hr
  · exact .inl ⟨u, hu, hr⟩

theorem held_push {a : String} (h : Held p a r) (i : Nat) (w : World) :
    Held (w, ⟨i, p.1, w⟩ :: p.2) a r :=
  held_mono (fun _ hu => hu.push i w) h

theorem Slots.source (hs : Slots conn i p w') {a : String} (h : Held (w', ⟨i, p.1, w'⟩ :: p.2) a r) :
    Held p a r ∨ (conn i = some r.connectionID ∧ Unclaimed p r.connectionID ∧ isRandomID r.sessionID = true ∧
      w'.kept (.account a) = some r ∧ ∀ a' r', w'.kept (.account a') = some r' → Held p a' r' ∨ r' = r) := by
  rcases held_step h with h | h
  · exact .inl h
  rcases hs with hsame | ⟨a₀, r₀, hconn, hfree, hid, hput⟩
  · exact .inl ⟨p.1, .inl rfl, hsame a ▸ h⟩
  · rw [hput] at h
    split at h
    · cases h
      refine .inr ⟨hconn, hfree, hid, by rw [hput, if_pos ‹_›], fun a' r' h' => ?_⟩
      rw [hput] at h'
      split at h'
      · exact .inr (Option.some.inj h').symm
      · exact .inl ⟨p.1, .inl rfl, h'⟩
    · exact .inl ⟨p.1, .inl rfl, h⟩

theorem inv_step (hi : Inv conn p) (hs : Slots conn i p w') (hn : Net conn p w')
    (hrandom : ∀ k r, w'.kept k = some r → isRandomID r.sessionID = true) :
    Inv conn (w', ⟨i, p.1, w'⟩ :: p.2) where
  redis := hn.store.trans hi.redis
  random := hrandom
  known j c hc := by
    obtain ⟨x, hx, hg⟩ := hi.known j c hc
    obtain ⟨x', hx', hg'⟩ := hn.conns c x hx
    exact ⟨x', hx', by rw [hg', hn.gateways]; exact hg⟩
  held a r h := by
    rcases hs.source h with h | ⟨hconn, -, hid, -⟩
    · exact hi.held a r h
    · exact ⟨hid, i, hconn⟩
  unique a a' r r' h h' heq := by
    rcases hs.source h with h | ⟨-, hfree, -, -, honly⟩ <;> rcases hs.source h' with h' | ⟨-, hfree', -, hnow', -⟩
    · exact hi.unique a a' r r' h h' heq
    · exact absurd heq (hfree' a r h)
    · exact absurd heq.symm (hfree a' r' h')
    · rcases honly a' r' hnow' with h' | rfl
      · exact absurd heq.symm (hfree a' r' h')
      · rfl
  bound j c x hc hx hne := by
    obtain ⟨a, r, hr, heq⟩ := hn.bound j c x hc hx hne
    exact ⟨a, r, held_push hr i w', heq⟩
  told g n h hne := by
    obtain ⟨a, r, hr, heq⟩ := hn.told g n h hne
    exact ⟨a, r, held_push hr i w', heq⟩
  holder a r h := by
    rcases hs.source h with h | ⟨-, -, -, hnow, -⟩
    · rcases hi.holder a r h with hcur | ⟨m, hm, htook⟩
      · rcases hs with hsame | ⟨a₀, r₀, -, hfree, -, hput⟩
        · exact .inl ((hsame a).trans hcur)
        · by_cases ha : a = a₀
          · refine .inr ⟨_, List.mem_cons_self .., a, r₀, hcur, by rw [hput, if_pos ha], ?_⟩
            rintro rfl
            exact hfree a r h rfl
          · exact .inl (by rw [hput, if_neg ha, hcur])
      · exact .inr ⟨m, List.mem_cons_of_mem _ hm, htook⟩
    · exact .inl hnow
  takers := by
    refine List.forall_mem_cons.mpr ⟨?_, hi.takers⟩
    rintro r ⟨a, r', hold, hnew, hne⟩ hnone
    rcases hs with hsame | ⟨a₀, r₀, hconn, -⟩
    · exact hne (Option.some.inj (hold.symm.trans ((hsame a).symm.trans hnew)))
    · cases hconn.symm.trans hnone

theorem rely_step (hdistinct : ∀ i j c, conn i = some c → conn j = some c → i = j) (hs : Slots conn i p w')
    (hn : Net conn p w') {j : Nat} (hj : j ≠ i) : Rely conn j p (w', ⟨i, p.1, w'⟩ :: p.2) where
  handled := hn.handled
  visited _ hu := hu.push i w'
  mine m hm hpid := by
    rcases List.mem_cons.mp hm with rfl | hm
    · exact absurd hpid.symm hj
    · exact hm
  unclaimed c hc hfree a r h := by
    rcases hs.source h with h | ⟨hconn, -⟩
    · exact hfree a r h
    · rintro rfl
      exact hj (hdistinct j i _ hc hconn)

/-! ## The commands -/

theorem Net.of_eq (hi : Inv conn p) (hs : w'.store = p.1.store) (hg : w'.gateways = p.1.gateways) (hc : w'.connections = p.1.connections)
    (hb : w'.inbox = p.1.inbox) : Net conn p w' where
  store := hs
  gateways := hg
  conns c x h := ⟨x, by rw [hc, h], rfl⟩
  bound j c x hj h := hi.bound j c x hj (hc ▸ h)
  told g n h := hi.told g n (hb ▸ h)
  handled _ _ _ h := h.imp fun x hx => ⟨by rw [hc, hx.1], by rw [hb]; exact hx.2⟩

def Calm : Cmd → Prop
  | .now | .randomID | .get _ | .enter _ _ _ _ | .emit _ => True
  | .create r => isRandomID r.sessionID = true
  | .compareAndSwap expected updated => isRandomID updated.sessionID = true ∧ expected.sessionID = updated.sessionID
  | _ => False

structure Apart (w w' : World) : Prop where
  store : w'.store = w.store
  gateways : w'.gateways = w.gateways
  connections : w'.connections = w.connections
  inbox : w'.inbox = w.inbox
  kept : ∀ k r, w'.kept k = some r → w.kept k = some r ∨ isRandomID r.sessionID = true
  slot : ∀ a, w'.kept (.account a) = w.kept (.account a)

theorem Apart.put (w : World) (t : Nat) (hr : isRandomID r.sessionID = true) (d : Time) :
    Apart w (World.put { w with clock := w.clock + t } (.session r.sessionID) r d) := by
  refine ⟨rfl, rfl, rfl, rfl, fun k r' h => ?_, fun a => ?_⟩
  · rw [kept_put] at h
    split at h
    · cases h
      exact .inr hr
    · exact .inl h
  · rw [kept_put, if_neg (nomatch ·)]
    rfl

theorem apart_exec {e : Env} {w w' : World} {c : Cmd} {r : Ans c} (hc : Calm c) (h : exec i e w c = some (r, w')) :
    Apart w w' := by
  have htick : ∀ w', w'.data = w.data → w'.store = w.store → w'.gateways = w.gateways →
      w'.connections = w.connections → w'.inbox = w.inbox → Apart w w' := fun w' h₁ h₂ h₃ h₄ h₅ =>
    ⟨h₂, h₃, h₄, h₅, fun k _ hr => .inl (kept_of_data h₁ k ▸ hr), fun a => kept_of_data h₁ _⟩
  cases c with
  | create rec =>
    rcases exec_create h hc with ⟨rfl, -⟩ | ⟨-, d, rfl⟩
    · exact htick _ rfl rfl rfl rfl rfl
    · exact .put w e.delay hc d
  | compareAndSwap expected updated =>
    rcases exec_compareAndSwap h hc.1 hc.2 with ⟨rfl, -⟩ | ⟨-, -, -, d, rfl⟩
    · exact htick _ rfl rfl rfl rfl rfl
    · exact .put w e.delay hc.1 d
  | now | randomID | get _ | enter _ _ _ _ | emit _ =>
    rcases exec_cases h with h | ⟨-, rfl⟩
    · simp only [World.answer] at h
      try split at h
      all_goals cases h
      all_goals exact htick _ rfl rfl rfl rfl rfl
    · exact htick _ rfl rfl rfl rfl rfl
  | _ => exact hc.elim

theorem Wires.preempt {u : World} (hn : Wires conn p u) (g : Nat) (n : Notice) : Wires conn p (u.preempt g n) := by
  obtain ⟨connections, heq⟩ := preempt_eq u g n
  have hlookup := lookup_preempt u g n
  refine ⟨by rw [heq]; exact hn.store, by rw [heq]; exact hn.gateways, fun c x hx => ?_, fun j c x hj hx hne => ?_,
    by rw [heq]; exact hn.told⟩
  · obtain ⟨x', hx', hg⟩ := hn.conns c x hx
    rw [hlookup, hx', Option.map_some]
    refine ⟨_, rfl, ?_⟩
    split <;> exact hg
  · rw [hlookup, Option.map_eq_some_iff] at hx
    obtain ⟨x₀, hx₀, rfl⟩ := hx
    have hsame : ∀ {q : Prop} [Decidable q], (if q then { x₀ with closed := true } else x₀).sessionID = x₀.sessionID ∧
        (if q then { x₀ with closed := true } else x₀).sessionEpoch = x₀.sessionEpoch := by
      intro q _
      split <;> exact ⟨rfl, rfl⟩
    rw [hsame.1] at hne ⊢
    rw [hsame.2]
    exact hn.bound j c x₀ hj hx₀ hne

theorem handled_preempt {u : World} (h : Handled u r) (g : Nat) (n : Notice) :
    Handled (u.preempt g n) r := by
  obtain ⟨connections, heq⟩ := preempt_eq u g n
  obtain ⟨x, hx, hdone⟩ := h
  refine ⟨_, by rw [lookup_preempt, hx, Option.map_some], ?_⟩
  rcases hdone with hclosed | hmem
  · refine .inl ?_
    split
    · rfl
    · exact hclosed
  · refine .inr ?_
    rw [heq]
    split <;> exact hmem

theorem Net.preempt {u : World} (hn : Net conn p u) (g : Nat) (n : Notice) : Net conn p (u.preempt g n) :=
  ⟨hn.toWires.preempt g n, fun a r hr hh => handled_preempt (hn.handled a r hr hh) g n⟩

theorem Net.bindSession {u : World} (hn : Net conn p u) {a : String} (hr : Held p a r) :
    Net conn p (u.bindSession r.connectionID r.sessionID r.connectionEpoch) := by
  obtain ⟨connections, heq⟩ := bindSession_eq u r.connectionID r.sessionID r.connectionEpoch
  have hlookup := lookup_bindSession u r.connectionID r.sessionID r.connectionEpoch
  refine ⟨⟨by rw [heq]; exact hn.store, by rw [heq]; exact hn.gateways, fun c x hx => ?_, fun j c x hj hx hne => ?_,
    by rw [heq]; exact hn.told⟩, fun a' r' hr' hh => ?_⟩
  · obtain ⟨x', hx', hg⟩ := hn.conns c x hx
    rw [hlookup, hx', Option.map_some]
    refine ⟨_, rfl, ?_⟩
    split <;> exact hg
  · rw [hlookup, Option.map_eq_some_iff] at hx
    obtain ⟨x₀, hx₀, rfl⟩ := hx
    split at hne
    · rename_i hc
      rw [if_pos hc, hc]
      exact ⟨a, r, hr, rfl⟩
    · rename_i hc
      rw [if_neg hc]
      exact hn.bound j c x₀ hj hx₀ hne
  · obtain ⟨x, hx, hdone⟩ := hn.handled a' r' hr' hh
    refine ⟨_, by rw [hlookup, hx, Option.map_some], ?_⟩
    rw [heq]
    split <;> exact hdone

theorem Net.publish (hi : Inv conn p) {t : Nat} {n : Notice}
    (hn : n.sessionID ≠ "" → ∃ a r, Held p a r ∧ r.notice = n) :
    Net conn p (World.publish { p.1 with clock := p.1.clock + t } n) := by
  have hmem : ∀ g n', n' ∈ (World.publish { p.1 with clock := p.1.clock + t } n).inbox g → n' ∈ p.1.inbox g ∨ n' = n := by
    intro g n' h
    simp only [World.publish] at h
    split at h
    · exact (List.mem_append.mp h).imp_right List.mem_singleton.mp
    · exact .inl h
  refine ⟨⟨rfl, rfl, fun c x hx => ⟨x, hx, rfl⟩, hi.bound, fun g n' h hne => ?_⟩, fun a r _ hh => ?_⟩
  · rcases hmem g n' h with h | rfl
    · exact hi.told g n' h hne
    · exact hn hne
  · refine hh.imp fun x hx => ⟨hx.1, hx.2.imp_right fun h => ?_⟩
    simp only [World.publish]
    split
    · exact List.mem_append_left _ h
    · exact h

theorem ne_empty_of_isRandomID {id : String} (h : isRandomID id = true) : id ≠ "" := by
  rintro rfl
  cases h

theorem deliver_cases {w : World} {g : Nat} (h : w.deliver g = some w') :
    ∃ n rest, ∃ u : World, w.inbox g = n :: rest ∧ w' = u.preempt g n ∧ u.inbox = Function.update w.inbox g rest ∧
      u.connections = w.connections ∧ u.store = w.store ∧ u.gateways = w.gateways := by
  unfold World.deliver at h
  split at h
  · cases h
  · rename_i n rest hinbox
    cases h
    exact ⟨n, rest, _, hinbox, rfl, rfl, rfl, rfl, rfl⟩

theorem Net.deliver (hi : Inv conn p) {g t : Nat} (hb : BoundFirst p.1 (.deliver g))
    (h : World.deliver { p.1 with clock := p.1.clock + t } g = some w') : Net conn p w' := by
  obtain ⟨n, rest, u, hinbox, rfl, hu, hconn, hstore, hgateways⟩ := deliver_cases h
  have hinbox : p.1.inbox g = n :: rest := hinbox
  have hmem : ∀ g' n', n' ∈ u.inbox g' → n' ∈ p.1.inbox g' := by
    intro g' n' h
    rw [hu] at h
    by_cases hg : g' = g
    · subst hg
      rw [Function.update_self] at h
      exact hinbox ▸ List.mem_cons_of_mem _ h
    · rwa [Function.update_of_ne hg] at h
  have hwires : Wires conn p u :=
    ⟨hstore, hgateways, fun c x hx => ⟨x, by rw [hconn]; exact hx, rfl⟩, fun j c x hj hx => hi.bound j c x hj (hconn ▸ hx),
      fun g' n' h => hi.told g' n' (hmem g' n' h)⟩
  refine ⟨hwires.preempt g n, fun a r hr hh => ?_⟩
  obtain ⟨x, hx, hdone⟩ := hh
  have hx' : u.connections.lookup r.connectionID = some x := by rw [hconn]; exact hx
  by_cases hpopped : r.notice = n ∧ x.gateway = g
  · -- the connection is bound, to the record the notice is about
    obtain ⟨rfl, hg⟩ := hpopped
    have hne := hb r.notice (by rw [hinbox]; rfl) (ne_empty_of_isRandomID (hi.held a r hr).1) x hx hg
    obtain ⟨j, hj⟩ := (hi.held a r hr).2
    obtain ⟨a', r', hr', heq⟩ := hi.bound j r.connectionID x hj hx hne
    obtain rfl := hi.unique a a' r r' hr hr' (congrArg Notice.connectionID heq).symm
    refine ⟨_, by rw [lookup_preempt, hx', Option.map_some], .inl ?_⟩
    rw [if_pos]
    exact ⟨rfl, hg, (congrArg Notice.sessionID heq).symm, .inr (congrArg Notice.connectionEpoch heq).symm⟩
  · refine handled_preempt ⟨x, hx', hdone.imp_right fun h => ?_⟩ g n
    by_cases hg : x.gateway = g
    · rw [hg, hinbox] at h
      rcases List.mem_cons.mp h with h | h
      · exact absurd ⟨h, hg⟩ hpopped
      · rw [hu, hg, Function.update_self]
        exact h
    · rw [hu, Function.update_of_ne hg]
      exact h

theorem claimAccount_cases {e : Env} {w : World} {accountID : String} {res : Except GoErr (Option Record)}
    (hredis : w.store = .redis) (h : commitWith w (w.claimAccount e accountID r) = (res, w')) :
    (w' = w ∧ ∃ err, res = .error err) ∨
      (res = .ok (w.lookup (.account accountID)) ∧ ∃ d, w' = w.put (.account accountID) r d) := by
  unfold World.claimAccount at h
  split at h
  · rename_i hmemory
    cases hmemory.symm.trans hredis
  · split at h
    · cases h
      exact .inl ⟨rfl, _, rfl⟩
    · split at h
      · cases h
        exact .inl ⟨rfl, _, rfl⟩
      · cases h
        exact .inr ⟨rfl, _, rfl⟩

theorem exec_claimAccount {e : Env} {w : World} {accountID : String} {res : Except GoErr (Option Record)}
    (hredis : w.store = .redis) (htimely : Timely e w) (h : exec i e w (.claimAccount accountID r) = some (res, w')) :
    (w' = { w with clock := w.clock + e.delay } ∧ ∃ err, res = .error err) ∨
      (res = .ok (w.kept (.account accountID)) ∧
        ∃ d, w' = World.put { w with clock := w.clock + e.delay } (.account accountID) r d) := by
  rcases exec_cases h with h | ⟨⟨text, htext⟩, rfl⟩
  · have hvisible : World.lookup { w with clock := w.clock + e.delay } (.account accountID) =
        w.kept (.account accountID) := by
      unfold World.lookup World.kept
      cases hentry : w.data.lookup (.account accountID) with
      | none => rfl
      | some entry =>
        have := htimely _ (AList.mem_lookup_iff.mp hentry)
        simp only [Option.map_some]
        rw [if_neg fun hgone => Nat.not_le.mpr this hgone.2]
    rw [← hvisible]
    exact claimAccount_cases hredis (Option.some.inj h)
  · cases htext
    exact .inl ⟨rfl, _, rfl⟩

/-! ## Handlers -/

variable (conn) in
structure At (i : Nat) (o h : Option Record) (p : Past World) : Prop where
  owes : ∀ m ∈ p.2, m.pid = i → ∀ r, Took m r → o = some r ∨ Handled p.1 r
  owed : ∀ r, o = some r → (∃ a, Held p a r) ∧ conn i ≠ some r.connectionID ∧ r.connectionID ≠ ""
  claimed : ∀ r, h = some r → Held p r.accountID r ∧ conn i = some r.connectionID
  free : h = none → ∀ c, conn i = some c → Unclaimed p c

theorem held_of_took {m : Pool.Step World} (hm : m ∈ p.2) (h : Took m r) : ∃ a, Held p a r := by
  obtain ⟨a, _, hr, -⟩ := h
  exact ⟨a, m.old, .inr ⟨m, hm, .inl rfl⟩, hr⟩

variable {o h : Option Record}

theorem At.rely {p' : Past World} (hat : At conn i o h p) (hr : Rely conn i p p') : At conn i o h p' where
  owes m hm hpid r htook := by
    have hm := hr.mine m hm hpid
    obtain ⟨a, ha⟩ := held_of_took hm htook
    exact (hat.owes m hm hpid r htook).imp_right (hr.handled a r ha)
  owed r ho := ⟨(hat.owed r ho).1.imp fun _ ha => held_mono hr.visited ha, (hat.owed r ho).2⟩
  claimed r hh := ⟨held_mono hr.visited (hat.claimed r hh).1, (hat.claimed r hh).2⟩
  free hh c hc := hr.unclaimed c hc (hat.free hh c hc)

theorem At.step (hat : At conn i o h p) (hslot : ∀ a, w'.kept (.account a) = p.1.kept (.account a)) (hn : Net conn p w') :
    At conn i o h (w', ⟨i, p.1, w'⟩ :: p.2) where
  owes := by
    refine List.forall_mem_cons.mpr ⟨?_, fun m hm hpid r htook => ?_⟩
    · rintro - r ⟨a, r', hold, hnew, hne⟩
      exact absurd (Option.some.inj (hold.symm.trans ((hslot a).symm.trans hnew))) hne
    · obtain ⟨a, ha⟩ := held_of_took hm htook
      exact (hat.owes m hm hpid r htook).imp_right (hn.handled a r ha)
  owed r ho := ⟨(hat.owed r ho).1.imp fun _ ha => held_push ha i w', (hat.owed r ho).2⟩
  claimed r hh := ⟨held_push (hat.claimed r hh).1 i w', (hat.claimed r hh).2⟩
  free hh c hc a r hr := by
    rcases held_step hr with hr | hr
    · exact hat.free hh c hc a r hr
    · exact hat.free hh c hc a r ⟨p.1, .inl rfl, hslot a ▸ hr⟩

end

def Guard (e : Env) (w : World) (c : Cmd) : Prop := Timely e w ∧ Reaches e c ∧ BoundFirst w c

abbrev Sound (conn : Nat → Option String) {α : Type} (i : Nat) (post : Past World → α → Prop) (q : Prog Ans α)
    (p : Past World) : Prop :=
  Pool.Safe (Pool.record exec) (fun _ e p c => Guard e p.1 c) (Inv conn) (Rely conn) i post q p

section
variable {conn : Nat → Option String} (hdistinct : ∀ i j c, conn i = some c → conn j = some c → i = j)
  {i : Nat} {o h : Option Record} {α : Type} {post : Past World → α → Prop} {p₀ : Past World}

include hdistinct

theorem sound_call {c : Cmd} {k : Ans c → Prog Ans α} (hat : At conn i o h p₀)
    (hstep : ∀ e p r w', Inv conn p → At conn i o h p → Guard e p.1 c → exec i e p.1 c = some (r, w') →
      Slots conn i p w' ∧ Net conn p w' ∧ (∀ k r, w'.kept k = some r → isRandomID r.sessionID = true) ∧
        Sound conn i post (k r) (w', ⟨i, p.1, w'⟩ :: p.2)) : Sound conn i post (.call c k) p₀ := by
  rintro e p r p' hr hi hg hrec
  obtain ⟨w', hx, rfl⟩ := Pool.record_eq_some hrec
  obtain ⟨hs, hn, hrandom, hk⟩ := hstep e p r w' hi (hat.rely hr) hg hx
  exact ⟨inv_step hi hs hn hrandom, fun j hj => rely_step hdistinct hs hn hj, hk⟩

theorem sound_calm {c : Cmd} {k : Ans c → Prog Ans α} (hat : At conn i o h p₀) (hc : Calm c)
    (hk : ∀ e p r w', Inv conn p → exec i e p.1 c = some (r, w') → At conn i o h (w', ⟨i, p.1, w'⟩ :: p.2) →
      Sound conn i post (k r) (w', ⟨i, p.1, w'⟩ :: p.2)) : Sound conn i post (.call c k) p₀ := by
  refine sound_call hdistinct hat fun e p r w' hi hat _ hx => ?_
  have hapart := apart_exec hc hx
  have hn := Net.of_eq hi hapart.store hapart.gateways hapart.connections hapart.inbox
  refine ⟨.inl hapart.slot, hn, fun k r hr => ?_, hk e p r w' hi hx (hat.step hapart.slot hn)⟩
  rcases hapart.kept k r hr with hr | hr
  · exact hi.random k r hr
  · exact hr

theorem sound_net {c : Cmd} {k : Ans c → Prog Ans α} {q : Option Record} (hat : At conn i o h p₀)
    (hstep : ∀ e p r w', Inv conn p → At conn i o h p → Guard e p.1 c → exec i e p.1 c = some (r, w') →
      w'.data = p.1.data ∧ Net conn p w' ∧ (At conn i o h (w', ⟨i, p.1, w'⟩ :: p.2) → At conn i q h (w', ⟨i, p.1, w'⟩ :: p.2)))
    (hk : ∀ r p, At conn i q h p → Sound conn i post (k r) p) : Sound conn i post (.call c k) p₀ := by
  refine sound_call hdistinct hat fun e p r w' hi hat hg hx => ?_
  obtain ⟨hdata, hn, hnext⟩ := hstep e p r w' hi hat hg hx
  have hkept := kept_of_data hdata
  exact ⟨.inl fun a => hkept _, hn, fun k r hr => hi.random k r (hkept k ▸ hr),
    hk r _ (hnext (hat.step (fun a => hkept _) hn))⟩

variable {k : Unit → Prog Ans α}

theorem sound_preempt {g : Nat} {n : Notice} (hat : At conn i o h p₀)
    (hk : ∀ p, At conn i o h p → Sound conn i post (k ()) p) : Sound conn i post (.call (.preempt g n) k) p₀ := by
  refine sound_net (q := o) hdistinct hat (fun e p r w' hi _ _ hx => ?_) fun _ => hk
  have hn : Net conn p { p.1 with clock := p.1.clock + e.delay } := Net.of_eq hi rfl rfl rfl rfl
  rcases exec_cases hx with hx | ⟨⟨_, hfail⟩, -⟩
  · cases hx
    obtain ⟨_, heq⟩ := preempt_eq { p.1 with clock := p.1.clock + e.delay } g n
    exact ⟨by rw [heq], hn.preempt g n, id⟩
  · cases hfail

theorem sound_publish {n : Notice} (hat : At conn i o h p₀) (ho : ∀ r, o = some r → r.notice = n)
    (hn : o = none → n.sessionID = "") (hk : ∀ p, At conn i none h p → Sound conn i post (k ()) p) :
    Sound conn i post (.call (.publish n) k) p₀ := by
  refine sound_net (q := none) hdistinct hat (fun e p r w' hi hat hg hx => ?_) fun _ => hk
  have hfail : e.fail = none := hg.2.1
  unfold exec at hx
  simp only [hfail, World.answer] at hx
  cases hx
  refine ⟨rfl, Net.publish hi fun hne => ?_,
    fun hat' => ⟨fun m hm hpid r htook => ?_, fun _ h => (by cases h), hat'.claimed, hat'.free⟩⟩
  · cases o with
    | none => exact absurd (hn rfl) hne
    | some r =>
      obtain ⟨a, ha⟩ := (hat.owed r rfl).1
      exact ⟨a, r, ha, ho r rfl⟩
  · rcases hat'.owes m hm hpid r htook with hor | hdone
    · obtain ⟨a, ha⟩ := (hat.owed r hor).1
      obtain ⟨j, hj⟩ := (hi.held a r ha).2
      obtain ⟨x, hx, hgw⟩ := hi.known j _ hj
      refine .inr ⟨x, hx, .inr ?_⟩
      simp only [World.publish, if_pos hgw, ho r hor]
      exact List.mem_append_right _ (List.mem_singleton.mpr rfl)
    · exact .inr hdone

theorem sound_bindSession {r : Record} (hat : At conn i o (some r) p₀)
    (hk : ∀ p, At conn i o (some r) p → Sound conn i post (k ()) p) :
    Sound conn i post (.call (.bindSession r.connectionID r.sessionID r.connectionEpoch) k) p₀ := by
  refine sound_net (q := o) hdistinct hat (fun e p _ w' hi hat _ hx => ?_) fun _ => hk
  have hn : Net conn p { p.1 with clock := p.1.clock + e.delay } := Net.of_eq hi rfl rfl rfl rfl
  rcases exec_cases hx with hx | ⟨⟨_, hfail⟩, -⟩
  · cases hx
    obtain ⟨_, heq⟩ := bindSession_eq { p.1 with clock := p.1.clock + e.delay } r.connectionID r.sessionID
      r.connectionEpoch
    exact ⟨by rw [heq], hn.bindSession (hat.claimed r rfl).1, id⟩
  · cases hfail

theorem sound_deliver {g : Nat} (hat : At conn i o h p₀) (hk : ∀ p, At conn i o h p → Sound conn i post (k ()) p) :
    Sound conn i post (.call (.deliver g) k) p₀ := by
  refine sound_net (q := o) hdistinct hat (fun e p r w' hi _ hg hx => ?_) fun _ => hk
  rcases exec_cases hx with hx | ⟨⟨_, hfail⟩, -⟩
  · obtain ⟨w₁, hw₁, heq⟩ := Option.map_eq_some_iff.mp hx
    cases heq
    obtain ⟨_, _, heq⟩ := deliver_eq hw₁
    exact ⟨by rw [heq], Net.deliver hi hg.2.2 hw₁, id⟩
  · cases hfail

theorem sound_claimAccount (hnonempty : ∀ i c, conn i = some c → c ≠ "") {r : Record}
    {k : Except GoErr (Option Record) → Prog Ans α} (hat : At conn i none none p₀)
    (hconn : conn i = some r.connectionID) (hid : isRandomID r.sessionID = true)
    (herr : ∀ err p, At conn i none none p → Sound conn i post (k (.error err)) p)
    (hok : ∀ previous p, At conn i previous (some r) p → Sound conn i post (k (.ok previous)) p) :
    Sound conn i post (.call (.claimAccount r.accountID r) k) p₀ := by
  refine sound_call hdistinct hat fun e p res w' hi hat hg hx => ?_
  rcases exec_claimAccount hi.redis hg.1 hx with ⟨rfl, err, rfl⟩ | ⟨rfl, d, rfl⟩
  · have hn : Net conn p { p.1 with clock := p.1.clock + e.delay } := Net.of_eq hi rfl rfl rfl rfl
    exact ⟨.inl fun _ => rfl, hn, hi.random, herr err _ (hat.step (fun _ => rfl) hn)⟩
  · have hfree := hat.free rfl _ hconn
    have hput : ∀ k, (World.put { p.1 with clock := p.1.clock + e.delay } (.account r.accountID) r d).kept k =
        if k = .account r.accountID then some r else p.1.kept k := fun k => kept_put
    have hslot : ∀ a, (World.put { p.1 with clock := p.1.clock + e.delay } (.account r.accountID) r d).kept (.account a) =
        if a = r.accountID then some r else p.1.kept (.account a) := by
      intro a
      rw [hput]
      simp only [Key.account.injEq]
    refine ⟨.inr ⟨r.accountID, r, hconn, hfree, hid, hslot⟩, Net.of_eq hi rfl rfl rfl rfl, fun k r' hr => ?_,
      hok _ _ ⟨?_, fun r' hr' => ?_, fun r' hr' => ?_, nofun⟩⟩
    · rw [hput] at hr
      split at hr
      · cases hr
        exact hid
      · exact hi.random k r' hr
    · refine List.forall_mem_cons.mpr ⟨?_, fun m hm hpid r' htook => ?_⟩
      · rintro - r' ⟨a, r₁, hold, hnew, hne⟩
        rw [hslot] at hnew
        split at hnew
        · rename_i ha
          exact .inl (ha ▸ hold)
        · exact absurd (Option.some.inj (hold.symm.trans hnew)) hne
      · exact .inr ((hat.owes m hm hpid r' htook).resolve_left nofun)
    · have hheld : Held p r.accountID r' := ⟨p.1, .inl rfl, hr'⟩
      obtain ⟨j, hj⟩ := (hi.held _ _ hheld).2
      refine ⟨⟨r.accountID, held_push hheld i _⟩, fun hsame => hfree r.accountID r' hheld ?_, hnonempty j _ hj⟩
      exact Option.some.inj (hsame.symm.trans hconn)
    · cases hr'
      exact ⟨⟨_, .inl rfl, by rw [hslot, if_pos rfl]⟩, hconn⟩

theorem sound_preemptPrevious (m : Manager) {previous : Option Record} {connectionID : String} (now : Time)
    (hat : At conn i o h p₀) (hconn : conn i = some connectionID) (ho : ∀ r, o = some r → previous = some r)
    (hnone : o = none → ∀ r, previous = some r → r.sessionID = "") :
    Sound conn i (fun p _ => At conn i none h p) (preemptPrevious m previous connectionID now) p₀ := by
  have hret : (∀ r, o = some r → False) → At conn i none h p₀ := by
    intro hno
    cases o with
    | none => exact hat
    | some r => exact (hno r rfl).elim
  unfold preemptPrevious
  split
  · exact hret fun r hr => nomatch ho r hr
  · rename_i r
    split
    · simp only [perform, Prog.perform_bind]
      refine sound_preempt hdistinct hat fun p hat => ?_
      refine sound_publish hdistinct hat (fun r' hr' => ?_) (fun hno => hnone hno r rfl) fun p hat => ?_
      · cases ho r' hr'
        rfl
      · exact sound_calm hdistinct hat trivial fun _ _ _ _ _ _ hat => hat
    · rename_i hskip
      refine hret fun r' hr' => hskip ?_
      cases ho r' hr'
      refine ⟨(hat.owed _ hr').2.2, fun heq => (hat.owed _ hr').2.1 ?_⟩
      rw [heq]
      exact hconn

omit hdistinct in
theorem sound_error {err : GoErr} (hat : At conn i none none p₀) :
    Sound conn i (fun p (res : Except GoErr Created) => ∃ h, At conn i none h p ∧ ∀ c, res = .ok c → h = some c.record)
      (.ret (.error err)) p₀ := by
  refine ⟨none, hat, fun c h => ?_⟩
  cases h

theorem sound_attach (hnonempty : ∀ i c, conn i = some c → c ≠ "") (m : Manager) (r : Record) (token sid : String)
    (now : Time) (type : LifecycleType) (previous : Option Record → String → Option Record)
    {k : Except GoErr (Option Record) → Prog Ans (Except GoErr Created)}
    (herr : ∀ err, k (.error err) = .ret (.error err))
    (hok : ∀ claimed, k (.ok claimed) = .call (.enter m.index r.accountID r.connectionID sid) fun previousID => do
      preemptPrevious m (previous claimed previousID) r.connectionID now
      emitLifecycle type r now
      return .ok ⟨r, token⟩)
    (hprevious : ∀ r' id, previous (some r') id = some r')
    (hfallback : ∀ id r', previous none id = some r' → r'.sessionID = "") (hat : At conn i none none p₀)
    (hconn : conn i = some r.connectionID) (hid : isRandomID r.sessionID = true) :
    Sound conn i (fun p res => ∃ h, At conn i none h p ∧ ∀ c, res = .ok c → h = some c.record)
      (.call (.claimAccount r.accountID r) k) p₀ := by
  refine sound_claimAccount hdistinct hnonempty hat hconn hid (fun err p hat => ?_) fun claimed p hat => ?_
  · rw [herr]
    exact sound_error hat
  rw [hok]
  refine sound_calm hdistinct hat trivial fun _ _ previousID _ _ _ hat => ?_
  refine Pool.Safe.bind ((sound_preemptPrevious hdistinct m now hat hconn ?_ ?_).mono fun p _ hat => ?_)
  · rintro r' rfl
    exact hprevious r' previousID
  · rintro rfl r' hr'
    exact hfallback previousID r' hr'
  · refine sound_calm hdistinct hat trivial fun _ _ _ _ _ _ hat => ⟨some r, hat, fun c hc => ?_⟩
    cases hc
    rfl

theorem sound_create (hnonempty : ∀ i c, conn i = some c → c ≠ "") (hash : String → String) (m : Manager)
    (accountID : String) {connectionID : String} (now : Time) (playerID : String) (hat : At conn i none none p₀)
    (hconn : conn i = some connectionID) :
    Sound conn i (fun p res => ∃ h, At conn i none h p ∧ ∀ c, res = .ok c → h = some c.record)
      (create hash m accountID connectionID now playerID) p₀ := by
  unfold create
  simp only [perform, Prog.perform_bind]
  refine sound_calm hdistinct hat trivial fun e p r w' _ hx hat => ?_
  rcases exec_randomID hx with ⟨-, hfail⟩ | ⟨sid, rfl, hid, -⟩
  · cases r with
    | error err => exact sound_error hat
    | ok sid => exact absurd rfl (hfail sid)
  dsimp only
  refine sound_calm hdistinct hat trivial fun _ _ r _ _ _ hat => ?_
  cases r with
  | error err => exact sound_error hat
  | ok token =>
    refine sound_calm hdistinct hat hid fun _ _ r _ _ _ hat => ?_
    cases r with
    | error err => exact sound_error hat
    | ok u =>
      cases u
      refine sound_attach hdistinct hnonempty m
        { sessionID := sid, accountID, playerID, gatewayInstanceID := m.gatewayID, connectionID, connectionEpoch := 1,
          state := .authenticated, resumeTokenHash := hash token, expireAt := now + m.sessionTTL }
        token sid now .connected _ (fun _ => rfl) (fun _ => rfl) (fun _ _ => rfl) (fun id r' hr' => ?_) hat hconn hid
      simp only [Option.ite_none_right_eq_some] at hr'
      rw [← Option.some.inj hr'.2]

theorem sound_resume (hnonempty : ∀ i c, conn i = some c → c ≠ "") (hash : String → String) (m : Manager)
    (sessionID token : String) {connectionID : String} (now : Time) (hat : At conn i none none p₀)
    (hconn : conn i = some connectionID) :
    Sound conn i (fun p res => ∃ h, At conn i none h p ∧ ∀ c, res = .ok c → h = some c.record)
      (resume hash m sessionID token connectionID now) p₀ := by
  unfold resume
  simp only [perform, Prog.perform_bind]
  refine sound_calm hdistinct hat trivial fun e p r w' hi hx hat => ?_
  cases r with
  | error err => exact sound_error hat
  | ok expected =>
    have hid := hi.random _ _ (kept_of_lookup (exec_get hx).2)
    dsimp only
    split
    · exact sound_calm hdistinct hat ⟨hid, rfl⟩ fun _ _ _ _ _ _ hat => sound_error hat
    split
    · exact sound_error hat
    refine sound_calm hdistinct hat trivial fun _ _ r _ _ _ hat => ?_
    cases r with
    | error err => exact sound_error hat
    | ok next =>
      refine sound_calm hdistinct hat ⟨hid, rfl⟩ fun _ _ r _ _ _ hat => ?_
      cases r with
      | error err => exact sound_error hat
      | ok swapped =>
        cases swapped with
        | false => exact sound_error hat
        | true =>
          refine sound_attach hdistinct hnonempty m
            { expected with
              state := .authenticated, connectionID, gatewayInstanceID := m.gatewayID
              connectionEpoch := expected.connectionEpoch + 1, resumeTokenHash := hash next
              expireAt := now + m.sessionTTL }
            next sessionID now .resumed _ (fun _ => rfl) (fun _ => rfl) (fun _ _ => rfl) (fun id r' hr' => ?_) hat hconn hid
          simp only [Option.ite_none_right_eq_some] at hr'
          rw [← Option.some.inj hr'.2]

theorem sound_bindAndReply {connectionID : String} {res : Except GoErr Created} (hconn : conn i = some connectionID)
    (hat : At conn i none h p₀) (hres : ∀ c, res = .ok c → h = some c.record) :
    Sound conn i (fun p res => ∃ h, At conn i none h p ∧ ∀ c, res = .ok (.created c) → h = some c.record)
      (bindAndReply connectionID res) p₀ := by
  cases res with
  | error err => exact ⟨h, hat, nofun⟩
  | ok c =>
    obtain rfl := hres c rfl
    obtain rfl := Option.some.inj ((hat.claimed c.record rfl).2.symm.trans hconn)
    refine sound_bindSession hdistinct hat fun p hat => ⟨some c.record, hat, fun c' hc => ?_⟩
    cases hc
    rfl

theorem sound_handler (hnonempty : ∀ i c, conn i = some c → c ≠ "") (hash : String → String) {call : Call}
    (hconn : conn i = call.connection.map (·.2)) (honly : call.connection = none → ∃ g, call = .deliver g)
    (hat : At conn i none none p₀) :
    Sound conn i (fun p res => ∃ h, At conn i none h p ∧ ∀ c, res = .ok (.created c) → h = some c.record)
      (call.handler hash) p₀ := by
  cases call with
  | login m connectionID accountID playerID =>
    simp only [Call.handler, login, perform, Prog.perform_bind]
    refine sound_calm hdistinct hat trivial fun _ _ now _ _ _ hat => ?_
    refine Pool.Safe.bind ((sound_create hdistinct hnonempty hash m accountID now playerID hat hconn).mono ?_)
    rintro p res ⟨h, hat, hres⟩
    exact sound_bindAndReply hdistinct hconn hat hres
  | resumeLogin m connectionID sessionID token =>
    simp only [Call.handler, resumeLogin, perform, Prog.perform_bind]
    split
    · exact ⟨none, hat, nofun⟩
    refine sound_calm hdistinct hat trivial fun _ _ now _ _ _ hat => ?_
    refine Pool.Safe.bind ((sound_resume hdistinct hnonempty hash m sessionID token now hat hconn).mono ?_)
    rintro p res ⟨h, hat, hres⟩
    exact sound_bindAndReply hdistinct hconn hat hres
  | deliver g => exact sound_deliver hdistinct hat fun p hat => ⟨none, hat, nofun⟩
  | create m accountID connectionID now playerID => cases (honly rfl).choose_spec
  | disconnect m sessionID connectionID now epoch => cases (honly rfl).choose_spec
  | resume m sessionID token connectionID now => cases (honly rfl).choose_spec
  | expire k => cases (honly rfl).choose_spec

end

end Slot

/-! ## Runs -/

def connectionOf (calls : List Call) (i : Nat) : Option String := (calls[i]?.bind Call.connection).map (·.2)

structure Logins (gateways : Nat) (connections : AList fun _ : String => Connection) (calls : List Call) : Prop where
  only : ∀ call ∈ calls, call.connection = none → ∃ g, call = .deliver g
  opened : ∀ call ∈ calls, ∀ x ∈ call.connection,
    x.1 < gateways ∧ x.2 ≠ "" ∧ connections.lookup x.2 = some { gateway := x.1 }
  distinct : calls.Pairwise fun a b => ∀ x ∈ a.connection, ∀ y ∈ b.connection, x.2 ≠ y.2

def IsOpen (w : World) (connectionID : String) : Prop :=
  ∃ x, w.connections.lookup connectionID = some x ∧ x.closed = false

section
variable {gateways : Nat} {connections : AList fun _ : String => Connection} {calls : List Call}

theorem Logins.connectionOf_eq {i : Nat} {c : String} (h : connectionOf calls i = some c) :
    ∃ call g, calls[i]? = some call ∧ call.connection = some (g, c) := by
  unfold connectionOf at h
  obtain ⟨⟨g, c'⟩, hx, rfl⟩ := Option.map_eq_some_iff.mp h
  obtain ⟨call, hcall, hconn⟩ := Option.bind_eq_some_iff.mp hx
  exact ⟨call, g, hcall, hconn⟩

theorem Logins.connectionOf_inj (hl : Logins gateways connections calls) (i j : Nat) (c : String)
    (hi : connectionOf calls i = some c) (hj : connectionOf calls j = some c) : i = j := by
  obtain ⟨a, g, ha, hga⟩ := Logins.connectionOf_eq hi
  obtain ⟨b, g', hb, hgb⟩ := Logins.connectionOf_eq hj
  obtain ⟨hli, rfl⟩ := List.getElem?_eq_some_iff.mp ha
  obtain ⟨hlj, rfl⟩ := List.getElem?_eq_some_iff.mp hb
  have hpair := List.pairwise_iff_getElem.mp hl.distinct
  rcases Nat.lt_trichotomy i j with hlt | heq | hlt
  · exact (hpair i j hli hlj hlt (g, c) hga (g', c) hgb rfl).elim
  · exact heq
  · exact (hpair j i hlj hli hlt (g', c) hgb (g, c) hga rfl).elim

theorem Logins.opened_of (hl : Logins gateways connections calls) {i : Nat} {c : String}
    (hi : connectionOf calls i = some c) :
    ∃ g, g < gateways ∧ c ≠ "" ∧ connections.lookup c = some { gateway := g } := by
  obtain ⟨call, g, hcall, hconn⟩ := Logins.connectionOf_eq hi
  exact ⟨g, hl.opened call (List.mem_of_getElem? hcall) (g, c) hconn⟩

theorem Slot.inv_init (hl : Logins gateways connections calls) (clock : Time) :
    Slot.Inv (connectionOf calls) (World.init .redis gateways connections clock, []) := by
  have hnone : ∀ a r, ¬Held (World.init .redis gateways connections clock, []) a r := by
    rintro a r ⟨u, rfl | ⟨m, hm, -⟩, hr⟩
    · cases hr
    · cases hm
  refine ⟨rfl, fun k r hr => (nomatch hr), fun i c hc => ?_, fun a r h => (hnone a r h).elim,
    fun a _ r _ h => (hnone a r h).elim, fun i c x hc hx hne => ?_, fun g n h => (nomatch h),
    fun a r h => (hnone a r h).elim, nofun⟩
  · obtain ⟨g, hg, -, hlookup⟩ := hl.opened_of hc
    exact ⟨_, hlookup, hg⟩
  · obtain ⟨g, -, -, hlookup⟩ := hl.opened_of hc
    cases hlookup.symm.trans hx
    exact absurd rfl hne

theorem Slot.at_init (clock : Time) (i : Nat) :
    Slot.At (connectionOf calls) i none none (World.init .redis gateways connections clock, []) := by
  refine ⟨nofun, nofun, nofun, ?_⟩
  rintro - c - a r ⟨u, rfl | ⟨m, hm, -⟩, hr⟩
  · cases hr
  · cases hm

end

/-- In every run of logins and resumes over one Redis store in which no TTL
elapses, every broadcast goes out, and no gateway handles a notice for a
connection before that is bound: once all have returned and all notices are
handled, at most one connection of an account is open. -/
theorem one_connection_open (hash : String → String) (gateways : Nat)
    (connections : AList fun _ : String => Connection) (clock : Time) (calls : List Call)
    (hl : Logins gateways connections calls) (sched : List (Nat × Env)) :
    let s₀ := State.init hash (World.init .redis gateways connections clock) calls
    let s := Pool.run exec s₀ sched
    Pool.Along exec (fun s a => Timely a.2 s.world) s₀ sched →
    Pool.Along exec (Pool.Issues fun _ e _ c => Reaches e c) s₀ sched →
    Pool.Along exec (Pool.Issues fun _ _ w c => BoundFirst w c) s₀ sched →
    (∀ i c, connectionOf calls i = some c → (s.answer i).isSome = true) → (∀ g < s.world.gateways, s.world.inbox g = []) →
    ∀ i j c c', s.answer i = some (.ok (.created c)) → s.answer j = some (.ok (.created c')) →
      c.record.accountID = c'.record.accountID → IsOpen s.world c.record.connectionID →
      IsOpen s.world c'.record.connectionID → i = j := by
  intro s₀ s htimely hreaches hbound hreturned hinbox i j c c' hans hans' hacc hopen hopen'
  have hinj := hl.connectionOf_inj
  have hnonempty : ∀ i c, connectionOf calls i = some c → c ≠ "" := fun i c hc => (hl.opened_of hc).choose_spec.2.1
  let post (i : Nat) (p : Past World) (res : Except GoErr Reply) : Prop :=
    ∃ h, Slot.At (connectionOf calls) i none h p ∧ ∀ c, res = .ok (.created c) → h = some c.record
  have hsound : ∀ i q, (calls.map (Call.handler hash))[i]? = some q →
      Slot.Sound (connectionOf calls) i (post i) q (World.init .redis gateways connections clock, []) := by
    refine Pool.forall_map fun i call hcall => ?_
    exact Slot.sound_handler hinj hnonempty hash (by rw [connectionOf, hcall, Option.bind_some])
      (hl.only call (List.mem_of_getElem? hcall)) (Slot.at_init clock i)
  have hG : Pool.Along exec (Pool.Issues fun _ e w c => Slot.Guard e w c) s₀ sched :=
    ((htimely.and hreaches).and hbound).mono fun _ _ h c k hp => ⟨h.1.1, h.1.2 c k hp, h.2 c k hp⟩
  obtain ⟨t, hrec, hgood, -⟩ := Pool.safe_trace Slot.Rely.refl Slot.Rely.trans (Slot.inv_init hl clock) hsound hG
  have hi := hgood.world
  have hw : t.world.1 = s.world := hrec.world
  -- where each handler that has returned stands now
  have hat : ∀ i res, s.answer i = some res →
      ∃ h, Slot.At (connectionOf calls) i none h t.world ∧ ∀ c, res = .ok (.created c) → h = some c.record := by
    intro i res hans
    obtain ⟨p, ⟨h, hp, hres⟩, hr⟩ := hgood.ret i res (hrec.procs ▸ Pool.answer_eq_some hans)
    exact ⟨h, hp.rely hr, hres⟩
  -- a connection that is open holds its account's slot
  have hholds : ∀ i c, s.answer i = some (.ok (.created c)) → IsOpen s.world c.record.connectionID →
      connectionOf calls i = some c.record.connectionID ∧
        t.world.1.kept (.account c.record.accountID) = some c.record := by
    intro i c hans hopen
    obtain ⟨h, hpos, hh⟩ := hat i _ hans
    obtain ⟨hheld, hconn⟩ := hpos.claimed c.record (hh c rfl)
    refine ⟨hconn, (hi.holder _ _ hheld).resolve_right ?_⟩
    rintro ⟨m, hm, htook⟩
    obtain ⟨cm, hcm⟩ := Option.ne_none_iff_exists'.mp (hi.takers m hm _ htook)
    obtain ⟨res, hres⟩ := Option.isSome_iff_exists.mp (hreturned m.pid cm hcm)
    obtain ⟨_, hposm, -⟩ := hat m.pid res hres
    obtain ⟨x, hx, hdone⟩ := (hposm.owes m hm rfl _ htook).resolve_left nofun
    obtain ⟨x', hx', hclosed⟩ := hopen
    obtain ⟨_, hknown, hgateway⟩ := hi.known i _ hconn
    cases hknown.symm.trans hx
    rw [hw] at hx hdone hgateway
    cases hx.symm.trans hx'
    rcases hdone with hdone | hdone
    · cases hdone.symm.trans hclosed
    · rw [hinbox _ hgateway] at hdone
      cases hdone
  obtain ⟨hconn, hslot⟩ := hholds i c hans hopen
  obtain ⟨hconn', hslot'⟩ := hholds j c' hans' hopen'
  rw [← hacc] at hslot'
  have heq := Option.some.inj (hslot.symm.trans hslot')
  exact hinj i j _ hconn (heq ▸ hconn')

/-! ## Two logins of one account -/

def twoConnections : AList fun _ : String => Connection :=
  (AList.insert "c1" ({ gateway := 0 } : Connection) ∅).insert "c2" { gateway := 1 }

def twoLogins : List Call :=
  [.login gateway1 "c1" "account" "player", .login gateway2 "c2" "account" "player", .deliver 0, .deliver 1]

def firstLogin : List (Nat × Env) :=
  [(0, {}), (0, { id := drawn1 }), (0, { id := drawn2 }),
    (0, {}), (0, {}), (0, {}), (0, {})]

def secondLogin : List (Nat × Env) :=
  [(1, {}), (1, { id := drawn3 }), (1, { id := drawn4 }),
    (1, {}), (1, {}), (1, {}), (1, {}), (1, {}), (1, {}), (1, {}), (1, {})]

def firstCreated : Created :=
  ⟨{ sessionID := drawn1, accountID := "account", playerID := "player"
     gatewayInstanceID := "gateway-1", connectionID := "c1", connectionEpoch := 1, state := .authenticated
     resumeTokenHash := drawn2, expireAt := 3600000000000 },
    drawn2⟩

def secondCreated : Created :=
  ⟨{ sessionID := drawn3, accountID := "account", playerID := "player"
     gatewayInstanceID := "gateway-2", connectionID := "c2", connectionEpoch := 1, state := .authenticated
     resumeTokenHash := drawn4, expireAt := 3600000000000 },
    drawn4⟩

theorem logins_twoLogins : Logins 2 twoConnections twoLogins := by
  refine ⟨fun call hcall hnone => ?_, by decide, by decide⟩
  simp only [twoLogins, List.mem_cons, List.not_mem_nil, or_false] at hcall
  rcases hcall with rfl | rfl | rfl | rfl
  · cases hnone
  · cases hnone
  · exact ⟨0, rfl⟩
  · exact ⟨1, rfl⟩

theorem one_connection_open_in_turn :
    let s := Pool.run exec (State.init id (World.init .redis 2 twoConnections 0) twoLogins)
      (firstLogin ++ Pool.inOrder [0] ++ secondLogin ++ Pool.inOrder [2, 3])
    IsOpen s.world "c2" ∧ ¬(IsOpen s.world "c1" ∧ IsOpen s.world "c2") := by
  intro s
  have hopen : s.world.connections.lookup "c2" = some ⟨1, drawn3, 1, false⟩ := by decide
  refine ⟨⟨_, hopen, rfl⟩, fun ⟨h₁, h₂⟩ => ?_⟩
  have hsame := one_connection_open id 2 twoConnections 0 twoLogins logins_twoLogins
    (firstLogin ++ Pool.inOrder [0] ++ secondLogin ++ Pool.inOrder [2, 3]) (by decide) (by decide) (by decide)
    (fun i c hc => by
      match i, hc with
      | 0, _ => decide
      | 1, _ => decide
      | 2, hc => cases hc
      | 3, hc => cases hc
      | _ + 4, hc => cases hc) (by decide) 0 1 firstCreated secondCreated (by decide) (by decide) rfl h₁ h₂
  cases hsame

theorem two_connections_open :
    let s := Pool.run exec (State.init id (World.init .redis 2 twoConnections 0) twoLogins)
      (firstLogin ++ secondLogin ++ Pool.inOrder [2, 3] ++ Pool.inOrder [0])
    s.answer 0 = some (.ok (.created firstCreated)) ∧ s.answer 1 = some (.ok (.created secondCreated)) ∧
      (∀ g < s.world.gateways, s.world.inbox g = []) ∧ IsOpen s.world "c1" ∧ IsOpen s.world "c2" := by
  intro s
  have hrun : s.answer 0 = some (.ok (.created firstCreated)) ∧ s.answer 1 = some (.ok (.created secondCreated)) ∧
      (∀ g < s.world.gateways, s.world.inbox g = []) ∧
      s.world.connections.lookup "c1" = some ⟨0, drawn1, 1, false⟩ ∧
      s.world.connections.lookup "c2" = some ⟨1, drawn3, 1, false⟩ := by
    decide +kernel
  obtain ⟨hfirst, hsecond, hinbox, hopen₁, hopen₂⟩ := hrun
  exact ⟨hfirst, hsecond, hinbox, ⟨_, hopen₁, rfl⟩, ⟨_, hopen₂, rfl⟩⟩

end GameServer.Gateway
