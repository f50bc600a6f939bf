import GameServer.Session
import GameServer.Streaming

/-!
# Consumers of session lifecycle events

`SessionLifecycleConsumer`, which a service registers with its router for the
events the gateways publish. Events arrive in any order and more than once; each
call of `Accept` holds the consumer's lock. What is known of a session afterwards
depends on the set of events alone.
-/

namespace GameServer.SessionLifecycle

open Streaming

structure SessionLifecycleEvent where
  eventID : String
  sessionID : String
  connectionEpoch : UInt64
  deriving DecidableEq

structure SessionLifecycleConsumer where
  latestEpoch : AList fun _ : String => UInt64
  eventIDs : List String

def newSessionLifecycleConsumer : SessionLifecycleConsumer := ⟨∅, []⟩

namespace SessionLifecycleConsumer

def latest (c : SessionLifecycleConsumer) (sessionID : String) : UInt64 := (c.latestEpoch.lookup sessionID).getD 0

def accept (c : SessionLifecycleConsumer) (event : SessionLifecycleEvent) : Bool × SessionLifecycleConsumer :=
  if event.eventID ∈ c.eventIDs then (false, c)
  else if event.connectionEpoch < c.latest event.sessionID then (false, c)
  else
    let c := { c with eventIDs := event.eventID :: c.eventIDs }
    if c.latest event.sessionID < event.connectionEpoch then
      (true, { c with latestEpoch := c.latestEpoch.insert event.sessionID event.connectionEpoch })
    else (true, c)

def handle (unmarshal : Bytes → Except GoErr SessionLifecycleEvent) (c : SessionLifecycleConsumer)
    (envelope : InternalEnvelope) : Outcome × SessionLifecycleConsumer :=
  match unmarshal envelope.payload with
  | .error err => (.error err, c)
  | .ok event =>
    if event.eventID = "" ∨ event.sessionID = "" ∨ event.connectionEpoch = 0 then (.ok none, c)
    else (.ok none, (c.accept event).2)

def acceptAll (c : SessionLifecycleConsumer) (events : List SessionLifecycleEvent) : SessionLifecycleConsumer :=
  events.foldl (fun c event => (c.accept event).2) c

def accepted (c : SessionLifecycleConsumer) : List SessionLifecycleEvent → List SessionLifecycleEvent
  | [] => []
  | event :: events =>
    if (c.accept event).1 then event :: accepted (c.accept event).2 events else accepted (c.accept event).2 events

end SessionLifecycleConsumer

open SessionLifecycleConsumer

def Determined (events : List SessionLifecycleEvent) : Prop :=
  ∀ e ∈ events, ∀ e' ∈ events, e.eventID = e'.eventID →
    e.sessionID = e'.sessionID ∧ e.connectionEpoch = e'.connectionEpoch

instance (events : List SessionLifecycleEvent) : Decidable (Determined events) :=
  inferInstanceAs (Decidable (∀ e ∈ events, ∀ e' ∈ events, _ → _ ∧ _))

/-! ## The ids of the gateways -/

/-- What `deliver` of the gateway's publisher puts on the wire. -/
def published (e : Gateway.LifecycleEvent) : SessionLifecycleEvent :=
  ⟨e.eventID, e.sessionID, .ofNat e.connectionEpoch⟩

theorem append_cons_inj {α : Type} {x : α} {l l' r r' : List α} (hr : x ∉ r) (hr' : x ∉ r')
    (h : l ++ x :: r = l' ++ x :: r') : l = l' ∧ r = r' := by
  have hreverse : r.reverse ++ x :: l.reverse = r'.reverse ++ x :: l'.reverse := by
    simpa using congrArg List.reverse h
  obtain ⟨hright, hleft⟩ := append_sep_inj (List.mem_reverse.not.2 hr) (List.mem_reverse.not.2 hr') hreverse
  exact ⟨List.reverse_injective hleft, List.reverse_injective hright⟩

theorem colon_not_mem_repr (n : Nat) : ':' ∉ n.repr.toList := by
  intro h
  exact absurd (isDigit_of_mem_repr h) (by decide)

theorem colon_not_mem_text (type : Gateway.LifecycleType) : ':' ∉ type.text.toList := by
  cases type <;> decide

theorem eventID_inj {type type' : Gateway.LifecycleType} {r r' : Gateway.Record} (now now' : Time)
    (h : (Gateway.lifecycleEvent type r now).eventID = (Gateway.lifecycleEvent type' r' now').eventID) :
    r.sessionID = r'.sessionID ∧ r.connectionEpoch = r'.connectionEpoch := by
  have hchars := congrArg String.toList h
  simp only [Gateway.lifecycleEvent, String.toList_append, List.append_assoc] at hchars
  have hsplit : (r.sessionID.toList ++ ':' :: (toString r.connectionEpoch).toList) ++ ':' :: type.text.toList =
      (r'.sessionID.toList ++ ':' :: (toString r'.connectionEpoch).toList) ++ ':' :: type'.text.toList := by
    simpa using hchars
  obtain ⟨hfront, -⟩ := append_cons_inj (colon_not_mem_text type) (colon_not_mem_text type') hsplit
  obtain ⟨hsession, hepoch⟩ := append_cons_inj (colon_not_mem_repr _) (colon_not_mem_repr _) hfront
  exact ⟨String.toList_inj.mp hsession, natRepr_inj (String.toList_inj.mp hepoch)⟩

theorem determined_published {events : List SessionLifecycleEvent}
    (h : ∀ e ∈ events, ∃ type r now, e = published (Gateway.lifecycleEvent type r now)) : Determined events := by
  intro e he e' he' hid
  obtain ⟨type, r, now, rfl⟩ := h e he
  obtain ⟨type', r', now', rfl⟩ := h e' he'
  obtain ⟨hsession, hepoch⟩ := eventID_inj now now' hid
  exact ⟨hsession, congrArg UInt64.ofNat hepoch⟩

/-! ## The largest epoch -/

def largestEpoch (sessionID : String) : List SessionLifecycleEvent → UInt64
  | [] => 0
  | e :: events =>
    if e.sessionID = sessionID ∧ largestEpoch sessionID events < e.connectionEpoch then e.connectionEpoch
    else largestEpoch sessionID events

theorem le_largestEpoch : ∀ {events : List SessionLifecycleEvent} {e : SessionLifecycleEvent}, e ∈ events →
    e.connectionEpoch ≤ largestEpoch e.sessionID events
  | [], _, h => absurd h List.not_mem_nil
  | e' :: events, e, h => by
    unfold largestEpoch
    rcases List.mem_cons.mp h with rfl | h
    · by_cases hnewer : largestEpoch e.sessionID events < e.connectionEpoch
      · rw [if_pos ⟨rfl, hnewer⟩]
        exact UInt64.le_refl _
      · rw [if_neg fun h => hnewer h.2]
        exact UInt64.not_lt.mp hnewer
    · have ih := le_largestEpoch h
      split
      · rename_i hnewer
        exact UInt64.le_of_lt (UInt64.lt_of_le_of_lt ih hnewer.2)
      · exact ih

theorem largestEpoch_reached (sessionID : String) : ∀ events : List SessionLifecycleEvent,
    largestEpoch sessionID events = 0 ∨
      ∃ e ∈ events, e.sessionID = sessionID ∧ e.connectionEpoch = largestEpoch sessionID events
  | [] => .inl rfl
  | e :: events => by
    unfold largestEpoch
    split
    · rename_i hnewer
      exact .inr ⟨e, List.mem_cons_self .., hnewer.1, rfl⟩
    · refine (largestEpoch_reached sessionID events).imp_right fun ⟨e', he', hs⟩ => ?_
      exact ⟨e', List.mem_cons_of_mem _ he', hs⟩

theorem le_of_reached {events : List SessionLifecycleEvent} {sessionID : String} {m n : UInt64}
    (hle : ∀ e ∈ events, e.sessionID = sessionID → e.connectionEpoch ≤ n)
    (hm : m = 0 ∨ ∃ e ∈ events, e.sessionID = sessionID ∧ e.connectionEpoch = m) : m ≤ n := by
  rcases hm with rfl | ⟨e, he, hs, rfl⟩
  · exact UInt64.zero_le
  · exact hle e he hs

theorem largestEpoch_eq {events : List SessionLifecycleEvent} {sessionID : String} {n : UInt64}
    (hle : ∀ e ∈ events, e.sessionID = sessionID → e.connectionEpoch ≤ n)
    (hn : n = 0 ∨ ∃ e ∈ events, e.sessionID = sessionID ∧ e.connectionEpoch = n) :
    largestEpoch sessionID events = n := by
  refine UInt64.le_antisymm (le_of_reached hle (largestEpoch_reached sessionID events)) (le_of_reached ?_ hn)
  rintro e he rfl
  exact le_largestEpoch he

theorem largestEpoch_congr {events events' : List SessionLifecycleEvent} (h : ∀ e, e ∈ events' ↔ e ∈ events)
    (sessionID : String) : largestEpoch sessionID events' = largestEpoch sessionID events := by
  refine largestEpoch_eq ?_ ?_
  · rintro e he rfl
    exact le_largestEpoch ((h e).mp he)
  · exact (largestEpoch_reached sessionID events).imp_right fun ⟨e, he, hs⟩ => ⟨e, (h e).mpr he, hs⟩

/-! ## One call -/

variable {c c' : SessionLifecycleConsumer} {event : SessionLifecycleEvent} {events seen : List SessionLifecycleEvent}

theorem accept_cases (c : SessionLifecycleConsumer) (event : SessionLifecycleEvent) :
    (c.accept event = (false, c) ∧
        (event.eventID ∈ c.eventIDs ∨ event.connectionEpoch < c.latest event.sessionID)) ∨
      ∃ c', c.accept event = (true, c') ∧ event.eventID ∉ c.eventIDs ∧ c.latest event.sessionID ≤ event.connectionEpoch ∧
        c'.eventIDs = event.eventID :: c.eventIDs ∧ c'.latest event.sessionID = event.connectionEpoch ∧
        ∀ s, s ≠ event.sessionID → c'.latest s = c.latest s := by
  unfold accept
  by_cases hseen : event.eventID ∈ c.eventIDs
  · exact .inl ⟨if_pos hseen, .inl hseen⟩
  rw [if_neg hseen]
  by_cases hstale : event.connectionEpoch < c.latest event.sessionID
  · exact .inl ⟨if_pos hstale, .inr hstale⟩
  rw [if_neg hstale]
  refine .inr ?_
  by_cases hnewer : c.latest event.sessionID < event.connectionEpoch
  · refine ⟨_, if_pos hnewer, hseen, UInt64.not_lt.mp hstale, rfl, ?_, fun s hs => ?_⟩
    · simp [latest]
    · simp [latest, AList.lookup_insert_ne hs]
  · refine ⟨_, if_neg hnewer, hseen, UInt64.not_lt.mp hstale, rfl, ?_, fun _ _ => rfl⟩
    exact UInt64.le_antisymm (UInt64.not_lt.mp hstale) (UInt64.not_lt.mp hnewer)

theorem latest_le_accept (c : SessionLifecycleConsumer) (event : SessionLifecycleEvent) (s : String) :
    c.latest s ≤ (c.accept event).2.latest s := by
  rcases accept_cases c event with ⟨haccept, -⟩ | ⟨c', haccept, -, hle, -, hown, hother⟩
  · rw [haccept]
    exact UInt64.le_refl _
  · rw [haccept]
    by_cases hs : s = event.sessionID
    · subst hs
      exact hown ▸ hle
    · exact hother s hs ▸ UInt64.le_refl _

/-- What the consumer knows after the events `seen`. The ids that it keeps are
those of events it has accepted. -/
structure Inv (seen : List SessionLifecycleEvent) (c : SessionLifecycleConsumer) : Prop where
  kept : ∀ id ∈ c.eventIDs, ∃ e ∈ seen, e.eventID = id
  covered : ∀ e ∈ seen, e.connectionEpoch ≤ c.latest e.sessionID
  reached : ∀ s, c.latest s = 0 ∨ ∃ e ∈ seen, e.sessionID = s ∧ e.connectionEpoch = c.latest s

theorem inv_new : Inv [] newSessionLifecycleConsumer where
  kept := fun _ h => absurd h List.not_mem_nil
  covered := fun _ h => absurd h List.not_mem_nil
  reached := fun _ => .inl rfl

theorem Inv.accept (h : Inv seen c) (hdet : Determined (seen ++ [event])) : Inv (seen ++ [event]) (c.accept event).2 := by
  have hold : ∀ e ∈ seen, e ∈ seen ++ [event] := fun _ he => List.mem_append_left _ he
  have hnew : event ∈ seen ++ [event] := List.mem_append_right _ (List.mem_singleton_self _)
  rcases accept_cases c event with ⟨haccept, hwhy⟩ | ⟨c', haccept, -, hle, hids, hown, hother⟩
  · rw [haccept]
    refine ⟨fun id hid => ?_, fun e he => ?_, fun s => ?_⟩
    · obtain ⟨e, he, hid⟩ := h.kept id hid
      exact ⟨e, hold e he, hid⟩
    · rcases List.mem_append.mp he with he | he
      · exact h.covered e he
      · obtain rfl := List.mem_singleton.mp he
        rcases hwhy with hseen | hstale
        · -- A repeated id: the epoch is the one that came with it before.
          obtain ⟨e', he', hid⟩ := h.kept _ hseen
          obtain ⟨hsession, hepoch⟩ := hdet e' (hold e' he') e hnew hid
          rw [← hsession, ← hepoch]
          exact h.covered e' he'
        · exact UInt64.le_of_lt hstale
    · exact (h.reached s).imp_right fun ⟨e, he, hs⟩ => ⟨e, hold e he, hs⟩
  · have hgrows := latest_le_accept c event
    rw [haccept] at hgrows ⊢
    refine ⟨fun id hid => ?_, fun e he => ?_, fun s => ?_⟩
    · rw [hids] at hid
      rcases List.mem_cons.mp hid with rfl | hid
      · exact ⟨event, hnew, rfl⟩
      · obtain ⟨e, he, hid⟩ := h.kept id hid
        exact ⟨e, hold e he, hid⟩
    · rcases List.mem_append.mp he with he | he
      · exact UInt64.le_trans (h.covered e he) (hgrows e.sessionID)
      · obtain rfl := List.mem_singleton.mp he
        exact hown ▸ UInt64.le_refl _
    · by_cases hs : s = event.sessionID
      · subst hs
        exact .inr ⟨event, hnew, rfl, hown.symm⟩
      · rw [hother s hs]
        exact (h.reached s).imp_right fun ⟨e, he, hs⟩ => ⟨e, hold e he, hs⟩

/-! ## Sequences -/

theorem Inv.acceptAll : ∀ (events : List SessionLifecycleEvent) {seen : List SessionLifecycleEvent}
    {c : SessionLifecycleConsumer}, Inv seen c → Determined (seen ++ events) → Inv (seen ++ events) (c.acceptAll events)
  | [], seen, c, h, _ => by rwa [List.append_nil]
  | event :: events, seen, c, h, hdet => by
    rw [List.append_cons] at hdet ⊢
    refine Inv.acceptAll events (h.accept fun e he e' he' => ?_) hdet
    exact hdet e (List.mem_append_left _ he) e' (List.mem_append_left _ he')

theorem of_mem_accepted : ∀ {events : List SessionLifecycleEvent} {c : SessionLifecycleConsumer} {e : SessionLifecycleEvent},
    e ∈ c.accepted events → e ∈ events ∧ e.eventID ∉ c.eventIDs ∧ c.latest e.sessionID ≤ e.connectionEpoch
  | [], _, _, h => absurd h List.not_mem_nil
  | event :: events, c, e, h => by
    have hgrows := latest_le_accept c event e.sessionID
    rcases accept_cases c event with ⟨haccept, -⟩ | ⟨c', haccept, hfresh, hle, hids, -, -⟩
    · simp only [accepted, haccept, Bool.false_eq_true, if_false] at h
      obtain ⟨he, hid, hle⟩ := of_mem_accepted h
      exact ⟨List.mem_cons_of_mem _ he, hid, hle⟩
    · simp only [accepted, haccept, if_true] at h
      rcases List.mem_cons.mp h with rfl | h
      · exact ⟨List.mem_cons_self .., hfresh, hle⟩
      · obtain ⟨he, hid, hle'⟩ := of_mem_accepted h
        rw [hids] at hid
        rw [haccept] at hgrows
        exact ⟨List.mem_cons_of_mem _ he, fun hin => hid (List.mem_cons_of_mem _ hin), UInt64.le_trans hgrows hle'⟩

theorem accepted_pairwise : ∀ (events : List SessionLifecycleEvent) (c : SessionLifecycleConsumer),
    (c.accepted events).Pairwise fun e e' =>
      e.eventID ≠ e'.eventID ∧ (e.sessionID = e'.sessionID → e.connectionEpoch ≤ e'.connectionEpoch)
  | [], _ => .nil
  | event :: events, c => by
    rcases accept_cases c event with ⟨haccept, -⟩ | ⟨c', haccept, -, -, hids, hown, -⟩
    · simp only [accepted, haccept, Bool.false_eq_true, if_false]
      exact accepted_pairwise events c
    · simp only [accepted, haccept, if_true]
      refine .cons (fun e he => ?_) (accepted_pairwise events c')
      obtain ⟨-, hid, hle⟩ := of_mem_accepted he
      rw [hids] at hid
      refine ⟨fun heq => hid (heq ▸ List.mem_cons_self ..), fun hsession => ?_⟩
      rw [← hown, hsession]
      exact hle

theorem latest_acceptAll (hdet : Determined events) (sessionID : String) :
    (newSessionLifecycleConsumer.acceptAll events).latest sessionID = largestEpoch sessionID events := by
  have h : Inv events (newSessionLifecycleConsumer.acceptAll events) := Inv.acceptAll events inv_new hdet
  refine (largestEpoch_eq (fun e he hs => ?_) (h.reached sessionID)).symm
  exact hs ▸ h.covered e he

theorem Determined.congr {events' : List SessionLifecycleEvent} (hdet : Determined events)
    (h : ∀ e, e ∈ events' ↔ e ∈ events) : Determined events' :=
  fun e he e' he' => hdet e ((h e).mp he) e' ((h e').mp he')

/-- Lifecycle events in any order and number: an id is accepted once at most, the
accepted epochs of a session do not decrease, and the latest epoch is the largest
one delivered, whatever the order and the repetitions. -/
theorem consumer_converges (events : List SessionLifecycleEvent) (hdet : Determined events) :
    ((newSessionLifecycleConsumer.accepted events).map (·.eventID)).Nodup ∧
      (∀ sessionID, (((newSessionLifecycleConsumer.accepted events).filter fun e => e.sessionID = sessionID).map
        (·.connectionEpoch)).Pairwise (· ≤ ·)) ∧
      (∀ sessionID, (newSessionLifecycleConsumer.acceptAll events).latest sessionID = largestEpoch sessionID events) ∧
      ∀ events' : List SessionLifecycleEvent, (∀ e, e ∈ events' ↔ e ∈ events) → ∀ sessionID,
        (newSessionLifecycleConsumer.acceptAll events').latest sessionID =
          (newSessionLifecycleConsumer.acceptAll events).latest sessionID := by
  have hpairs := accepted_pairwise events newSessionLifecycleConsumer
  refine ⟨?_, fun sessionID => ?_, latest_acceptAll hdet, fun events' hsame sessionID => ?_⟩
  · exact List.pairwise_map.mpr (hpairs.imp fun h => h.1)
  · refine List.pairwise_map.mpr (List.pairwise_filter.mpr (hpairs.imp fun h he he' => h.2 ?_))
    exact (of_decide_eq_true he).trans (of_decide_eq_true he').symm
  · rw [latest_acceptAll (hdet.congr hsame), latest_acceptAll hdet, largestEpoch_congr hsame]

theorem consumer_converges_session1 :
    let events : List SessionLifecycleEvent :=
      [⟨"session-1:2:resumed", "session-1", 2⟩, ⟨"session-1:2:resumed", "session-1", 2⟩,
        ⟨"session-1:1:disconnected", "session-1", 1⟩, ⟨"session-1:2:preempted", "session-1", 2⟩]
    Determined events ∧ (newSessionLifecycleConsumer.accepted events).map (·.eventID) =
        ["session-1:2:resumed", "session-1:2:preempted"] ∧
      (newSessionLifecycleConsumer.acceptAll events).latest "session-1" = largestEpoch "session-1" events := by
  intro events
  have hdet : Determined events := by decide
  exact ⟨hdet, by decide, (consumer_converges events hdet).2.2.1 "session-1"⟩

end GameServer.SessionLifecycle
