import GameServer.ManagerClients
import GameServer.RegistryDirectory

/-!
# Discovery converges

A watcher learns what is registered from `Discover`, which only adds, and then
from the events of its watch. While the watch is open, what the manager knows
becomes what is registered once the events under way are handled: as long as
each change falls where one of the two notices it.
-/

namespace GameServer.Discovery

/-! ## What concerns one watcher -/

structure View where
  kind : RegistryKind
  service : String
  entries : AList fun _ : String => Item
  watch : Option Watch
  known : String → Option Registration
  discovered : Option (List Registration)
  received : Option Event

def World.view (w : World) (i : Nat) (service : String) : View where
  kind := w.registry.kind
  service
  entries := w.registry.entries
  watch := w.registry.watches i
  known instanceID := w.known.lookup (managerKey service instanceID)
  discovered := w.discovered i
  received := w.received i

def Event.apply (known : String → Option Registration) (event : Event) : String → Option Registration :=
  Function.update known event.registration.instanceID
    (match event.type with
      | .put => some event.registration
      | .delete => none)

namespace View

def registered (v : View) (instanceID : String) : Option Registration :=
  (v.entries.lookup (v.kind.key v.service instanceID)).map Item.registration

def pending (v : View) : List Event := v.received.toList ++ (v.watch.map Watch.buffer).getD []

def expected (v : View) : String → Option Registration := v.pending.foldl Event.apply v.known

def Listening (v : View) : Prop := v.watch.any (·.isOpen) = true

instance (v : View) : Decidable v.Listening := inferInstanceAs (Decidable (_ = true))

def Attentive (v : View) : Prop :=
  ∃ watch ∈ v.watch, watch.isOpen = true ∧ (v.kind = .static → watch.buffer.length < watchBuffer)

def Early (v : View) : Prop := ¬ v.Listening ∧ v.discovered = none

end View

def Converged (i : Nat) (service : String) (w : World) : Prop :=
  (w.view i service).Listening → (w.view i service).pending = [] →
    ∀ instanceID, (w.view i service).known instanceID = (w.view i service).registered instanceID

/-- Every change of the registrations is noticed by watcher `i`: it is made while
its watch is open and has room, and the event names the instance; or before its
next `Discover`, and then it is not the end of a registration the manager knows
or will know by then. A watch is opened after a `Discover` that did not fail, or
has nothing to catch up with. Nobody else handles instances of the service, and
the services registered are plain. -/
def Timely (i : Nat) (service : String) (j : Nat) (e : Env) (w : World) : Cmd → Prop
  | .register item => Plain item.service ∧ (item.service = service → w.registry.refuses item e.failure = none →
      (w.view i service).registered item.instanceID ≠ some item →
        (w.view i service).Attentive ∨ (w.view i service).Early)
  | .deregister item => Plain item.service ∧ (item.service = service →
      (w.registry.deregister j item).held service item.instanceID ≠ w.registry.held service item.instanceID →
      (w.view i service).Attentive ∧ (w.registry.kind ≠ .static → lastSegment item.instanceID = item.instanceID) ∨
        (w.view i service).Early ∧ (w.view i service).expected item.instanceID = none)
  | .watch _ => j = i → e.failure = none → w.discovered i ≠ none ∨
      ∀ instanceID, (w.view i service).known instanceID = (w.view i service).registered instanceID
  | .upsert key _ | .remove key => j ≠ i → World.ofService service key = false
  | _ => True

theorem ofService_managerKey (service instanceID : String) :
    World.ofService service (managerKey service instanceID) = true := by
  have hlist : (managerKey service instanceID).toList = (service ++ "/").toList ++ instanceID.toList :=
    String.toList_append
  rw [World.ofService, List.isPrefixOf_iff_prefix, hlist]
  exact List.prefix_append ..

theorem managerKey_inj {service a b : String} : managerKey service a = managerKey service b ↔ a = b := by
  unfold managerKey
  exact String.append_right_inj _

namespace Following

structure Inv (service : String) (v : View) : Prop where
  service : ∀ watch ∈ v.watch, watch.service = service
  plain : Plain v.service
  filed : Filed Plain v.kind v.entries
  tracks : v.Listening → v.expected = v.registered
  contained : ∀ instanceID, v.registered instanceID = none → v.expected instanceID = none
  exclusive : v.Listening → v.discovered = none
  fresh : ∀ found, v.discovered = some found → ∀ r, r ∈ found ↔ v.registered r.instanceID = some r

theorem Inv.ids {service : String} {v : View} (h : Inv service v) {instanceID : String} {r : Registration}
    (hr : v.registered instanceID = some r) : r.instanceID = instanceID := by
  obtain ⟨item, hitem, rfl⟩ := Option.map_eq_some_iff.mp hr
  obtain ⟨hkey, hplain⟩ := h.filed _ _ hitem
  exact ((RegistryKind.key_inj h.plain hplain).mp hkey).2.symm

structure Later (v v' : View) : Prop where
  known : v'.known = v.known
  discovered : v'.discovered = v.discovered
  received : v'.received = v.received
  quiet : ¬ v.Listening → v'.watch = v.watch

theorem Later.refl (v : View) : Later v v := ⟨rfl, rfl, rfl, fun _ => rfl⟩

theorem listening_congr {v v' : View} (h : v'.watch = v.watch) : v'.Listening ↔ v.Listening := by
  rw [View.Listening, View.Listening, h]

theorem Later.trans {u v w : View} (h : Later u v) (h' : Later v w) : Later u w := by
  refine ⟨h'.known.trans h.known, h'.discovered.trans h.discovered, h'.received.trans h.received, fun hq => ?_⟩
  have hq' : ¬ v.Listening := fun hl => hq ((listening_congr (h.quiet hq)).mp hl)
  exact (h'.quiet hq').trans (h.quiet hq)

theorem Later.pending {v v' : View} (h : Later v v') (hq : ¬ v.Listening) : v'.pending = v.pending := by
  rw [View.pending, View.pending, h.received, h.quiet hq]

theorem Later.listening {v v' : View} (h : Later v v') (hq : ¬ v.Listening) : ¬ v'.Listening :=
  fun hl => hq ((listening_congr (h.quiet hq)).mp hl)

/-! ## The registrations change -/

structure Change (v v' : View) (instanceID : String) (value : Option Registration) (event : Event) : Prop where
  registered : v'.registered = Function.update v.registered instanceID value
  service : v'.service = v.service
  filed : Filed Plain v'.kind v'.entries
  watch : v'.watch = v.watch.map (Registry.push v.kind event)
  known : v'.known = v.known
  discovered : v'.discovered = v.discovered
  received : v'.received = v.received
  heard : v.Attentive → ∀ known, event.apply known = Function.update known instanceID value
  noticed : v.Attentive ∨ v.Early ∧ (value = none → v.expected instanceID = none) ∨ v.registered instanceID = value

variable {service : String} {v v' : View}

theorem push_eq_self {event : Event} (hdeaf : ¬ v.Attentive) : v.watch.map (Registry.push v.kind event) = v.watch := by
  cases hwatch : v.watch with
  | none => rfl
  | some watch =>
    exact congrArg some (if_neg fun ⟨hopen, hroom⟩ => hdeaf ⟨watch, hwatch, hopen, hroom⟩)

theorem listening_of_attentive (h : v.Attentive) : v.Listening := by
  obtain ⟨watch, hwatch, hopen, -⟩ := h
  rw [View.Listening, Option.mem_def.mp hwatch]
  exact hopen

theorem expected_congr (hknown : v'.known = v.known) (hreceived : v'.received = v.received) (hwatch : v'.watch = v.watch) :
    v'.expected = v.expected := by
  rw [View.expected, View.expected, View.pending, View.pending, hknown, hreceived, hwatch]

theorem Inv.of_expected (h : Inv service v) (hplain : v'.service = v.service) (hfiled : Filed Plain v'.kind v'.entries)
    (hregistered : v'.registered = v.registered) (hexpected : v'.expected = v.expected)
    (hservice : ∀ watch ∈ v'.watch, watch.service = service) (hlistening : v'.Listening → v.Listening)
    (hdiscovered : v'.discovered = v.discovered) : Inv service v' := by
  refine ⟨hservice, hplain ▸ h.plain, hfiled, fun hl => ?_, ?_, fun hl => ?_, ?_⟩
  · rw [hexpected, hregistered]
    exact h.tracks (hlistening hl)
  · rw [hexpected, hregistered]
    exact h.contained
  · rw [hdiscovered]
    exact h.exclusive (hlistening hl)
  · rw [hdiscovered, hregistered]
    exact h.fresh

variable {instanceID : String} {value : Option Registration} {event : Event}

theorem Change.inv_of_attentive (hc : Change v v' instanceID value event) (h : Inv service v) (ha : v.Attentive) : Inv service v' := by
  have hl := listening_of_attentive ha
  obtain ⟨watch, hwatch, hopen, hroom⟩ := ha
  have hwatch' : v'.watch = some { watch with buffer := watch.buffer ++ [event] } := by
    rw [hc.watch, Option.mem_def.mp hwatch, Option.map_some, Registry.push, if_pos ⟨hopen, hroom⟩]
  have hpending : v'.pending = v.pending ++ [event] := by
    rw [View.pending, View.pending, hc.received, hwatch', Option.mem_def.mp hwatch]
    simp only [Option.map_some, Option.getD_some, List.append_assoc]
  have hexpected : v'.expected = v'.registered := by
    rw [View.expected, hpending, List.foldl_append, hc.known, hc.registered, ← h.tracks hl]
    exact hc.heard (⟨watch, hwatch, hopen, hroom⟩) _
  have hnone : v'.discovered = none := hc.discovered.trans (h.exclusive hl)
  refine ⟨fun watch' hmem => ?_, hc.service ▸ h.plain, hc.filed, fun _ => hexpected, fun x hx => ?_, fun _ => hnone,
    fun found hfound => ?_⟩
  · rw [hwatch', Option.mem_some_iff] at hmem
    exact hmem ▸ h.service watch hwatch
  · rw [hexpected, hx]
  · exact absurd (hnone.symm.trans hfound) (by simp)

theorem Change.inv_of_early (hc : Change v v' instanceID value event) (h : Inv service v)
    (hwatch : v'.watch = v.watch) (hearly : v.Early) (hgone : value = none → v.expected instanceID = none) :
    Inv service v' := by
  have hexpected : v'.expected = v.expected := expected_congr hc.known hc.received hwatch
  have hquiet : ¬ v'.Listening := fun hl => hearly.1 ((listening_congr hwatch).mp hl)
  have hnone : v'.discovered = none := hc.discovered.trans hearly.2
  refine ⟨hwatch ▸ h.service, hc.service ▸ h.plain, hc.filed, fun hl => absurd hl hquiet, fun x hx => ?_, fun _ => hnone,
    fun found hfound => ?_⟩
  · rw [hexpected]
    rw [hc.registered] at hx
    by_cases hne : x = instanceID
    · subst hne
      rw [Function.update_self] at hx
      exact hgone hx
    · rw [Function.update_of_ne hne] at hx
      exact h.contained x hx
  · exact absurd (hnone.symm.trans hfound) (by simp)

theorem Change.inv (hc : Change v v' instanceID value event) (h : Inv service v) : Inv service v' ∧ Later v v' := by
  by_cases ha : v.Attentive
  · exact ⟨hc.inv_of_attentive h ha, hc.known, hc.discovered, hc.received, fun hq => absurd (listening_of_attentive ha) hq⟩
  have hwatch : v'.watch = v.watch := hc.watch.trans (push_eq_self ha)
  refine ⟨?_, hc.known, hc.discovered, hc.received, fun _ => hwatch⟩
  rcases hc.noticed with ha' | ⟨hearly, hgone⟩ | hsame
  · exact absurd ha' ha
  · exact hc.inv_of_early h hwatch hearly hgone
  · have hregistered : v'.registered = v.registered := by rw [hc.registered, ← hsame, Function.update_eq_self]
    exact h.of_expected hc.service hc.filed hregistered (expected_congr hc.known hc.received hwatch) (hwatch ▸ h.service)
      (listening_congr hwatch).mp hc.discovered

/-! ## The watcher moves -/

theorem inv_close (h : Inv service v) :
    Inv service { v with watch := v.watch.map fun watch => { watch with isOpen := false } } ∧
      Later v { v with watch := v.watch.map fun watch => { watch with isOpen := false } } := by
  have hexpected : View.expected { v with watch := v.watch.map fun watch => { watch with isOpen := false } } = v.expected := by
    simp only [View.expected, View.pending, Option.map_map]
    rfl
  refine ⟨h.of_expected rfl h.filed rfl hexpected (fun watch hmem => ?_) (fun hl => ?_) rfl, rfl, rfl, rfl, fun hq => ?_⟩
  · obtain ⟨watch', hwatch', rfl⟩ := Option.map_eq_some_iff.mp hmem
    exact h.service watch' hwatch'
  · simp only [View.Listening, Option.any_map] at hl
    cases hwatch : v.watch <;> simp [hwatch] at hl
  · show v.watch.map _ = v.watch
    cases hwatch : v.watch with
    | none => rfl
    | some watch =>
      have hclosed : watch.isOpen = false := by simpa [View.Listening, hwatch] using hq
      rw [Option.map_some, ← hclosed]

theorem inv_discover (h : Inv service v) (hq : ¬ v.Listening) (found : List Registration)
    (hfound : ∀ r, r ∈ found ↔ v.registered r.instanceID = some r) : Inv service { v with discovered := some found } := by
  refine ⟨h.service, h.plain, h.filed, fun hl => absurd hl hq, h.contained, fun hl => absurd hl hq, ?_⟩
  rintro _ ⟨⟩
  exact hfound

theorem inv_forget (h : Inv service v) : Inv service { v with discovered := none } :=
  ⟨h.service, h.plain, h.filed, h.tracks, h.contained, fun _ => rfl, fun _ hfound => by cases hfound⟩

theorem inv_open (h : Inv service v) (hreceived : v.received = none) (hknown : v.known = v.registered) :
    Inv service { v with watch := some { service }, discovered := none } := by
  have hexpected : View.expected { v with watch := some { service }, discovered := none } = v.registered := by
    simp only [View.expected, View.pending, hreceived, Option.toList_none, Option.map_some, Option.getD_some, List.append_nil,
      List.foldl_nil, hknown]
  refine ⟨?_, h.plain, h.filed, fun _ => hexpected, fun x hx => ?_, fun _ => rfl, fun _ hfound => by cases hfound⟩
  · rintro _ ⟨⟩
    rfl
  · rw [hexpected]
    exact hx

theorem inv_next {name : String} {buffer : List Event} {isOpen : Bool} (h : Inv service v)
    (hwatch : v.watch = some ⟨name, event :: buffer, isOpen⟩) (hreceived : v.received = none) :
    Inv service { v with watch := some ⟨name, buffer, isOpen⟩, received := some event } := by
  have hexpected : View.expected { v with watch := some ⟨name, buffer, isOpen⟩, received := some event } = v.expected := by
    simp only [View.expected, View.pending, hwatch, hreceived, Option.toList_none, Option.toList_some, Option.map_some,
      Option.getD_some, List.nil_append, List.singleton_append]
  refine h.of_expected rfl h.filed rfl hexpected ?_ (fun hl => ?_) rfl
  · rintro _ ⟨⟩
    exact h.service ⟨name, event :: buffer, isOpen⟩ hwatch
  · rw [View.Listening, hwatch]
    exact hl

theorem inv_handle (h : Inv service v) (hreceived : v.received = some event) :
    Inv service { v with known := event.apply v.known, received := none } := by
  refine h.of_expected rfl h.filed rfl ?_ h.service id rfl
  simp only [View.expected, View.pending, hreceived, Option.toList_none, Option.toList_some, List.nil_append,
    List.singleton_append, List.foldl_cons]

theorem inv_found {r : Registration} (h : Inv service v) (hq : ¬ v.Listening) (hpending : v.pending = [])
    (hr : v.registered r.instanceID = some r) :
    Inv service { v with known := Function.update v.known r.instanceID (some r), received := none } := by
  obtain ⟨hreceived, hbuffer⟩ := List.append_eq_nil_iff.mp hpending
  have hknown : v.expected = v.known := by rw [View.expected, hpending, List.foldl_nil]
  have hexpected : View.expected { v with known := Function.update v.known r.instanceID (some r), received := none } =
      Function.update v.known r.instanceID (some r) := by
    simp only [View.expected, View.pending, Option.toList_none, hbuffer, List.append_nil, List.foldl_nil]
  refine ⟨h.service, h.plain, h.filed, fun hl => absurd hl hq, fun x hx => ?_, fun hl => absurd hl hq, h.fresh⟩
  have hne : x ≠ r.instanceID := by
    rintro rfl
    exact absurd (hr.symm.trans hx) (by simp)
  rw [hexpected, Function.update_of_ne hne, ← hknown]
  exact h.contained x hx

theorem known_eq_registered (h : Inv service v) (hpending : v.pending = []) {found : List Registration}
    (hfound : v.discovered = some found) (hall : ∀ r ∈ found, v.known r.instanceID = some r) : v.known = v.registered := by
  have hknown : v.expected = v.known := by rw [View.expected, hpending, List.foldl_nil]
  funext x
  cases hx : v.registered x with
  | none => rw [← hknown, h.contained x hx]
  | some r =>
    obtain rfl := h.ids hx
    exact hall r ((h.fresh found hfound r).mpr hx)

/-! ## Commands -/

variable {m : Config} {i j : Nat} {e : Env} {w w' : World}

def Aside : Cmd → Prop
  | .contextErr | .wait | .dial _ _ | .newClient _ | .insert _ _ _ | .closeClient _ | .startMonitor _ | .takeMonitor
  | .awaitDone _ | .drop _ _ | .client _ | .anyClient _ | .cancel | .closeAll => True
  | _ => False

theorem view_aside {c : Cmd} {r : Ans c} (hx : exec m j e w c = some (r, w')) (hc : Aside c) :
    w'.view i service = w.view i service := by
  have hworld := exec_world hx
  cases c with
  | discover | watch | nextEvent | upsert | remove | register | deregister | endWatch => exact hc.elim
  | contextErr | closeClient | startMonitor | client | anyClient | cancel =>
    cases hx
    rfl
  | wait | awaitDone =>
    simp only [exec] at hx
    split_ifs at hx <;> cases hx <;> rfl
  | dial | newClient | takeMonitor | closeAll =>
    simp only [exec] at hx
    split at hx <;> cases hx <;> rfl
  | insert key registration client =>
    rw [← hworld _ rfl]
    unfold World.insert
    dsimp only
    split_ifs <;> rfl
  | drop key client =>
    rw [← hworld _ rfl]
    unfold World.drop
    dsimp only
    split
    · rfl
    · split <;> rfl

theorem view_upsert (key : String) (registration : Registration) (hkey : ∀ x, managerKey service x ≠ key) (hj : i ≠ j) :
    (w.upsert m j key registration).2.view i service = w.view i service := by
  have hknown : ∀ x, (w.known.insert key registration).lookup (managerKey service x) = w.known.lookup (managerKey service x) :=
    fun x => AList.lookup_insert_ne (hkey x)
  have hview : World.view { w with known := w.known.insert key registration, received := Function.update w.received j none }
      i service = w.view i service := by
    simp only [World.view, Function.update_of_ne hj, hknown]
  unfold World.upsert
  dsimp only
  split_ifs <;> exact hview

theorem view_remove (key : String) (hkey : ∀ x, managerKey service x ≠ key) (hj : i ≠ j) :
    (w.remove j key).2.view i service = w.view i service := by
  have hknown : ∀ x, (w.known.erase key).lookup (managerKey service x) = w.known.lookup (managerKey service x) :=
    fun x => AList.lookup_erase_ne (hkey x)
  simp only [World.view, World.remove, Function.update_of_ne hj, hknown]

theorem foreign_key {key : String} (h : World.ofService service key = false) (x : String) : managerKey service x ≠ key := by
  rintro rfl
  exact absurd (ofService_managerKey service x) (by simp [h])

theorem publish_other {item : Registration} {key : String} {type : EventType} {entries : AList fun _ : String => Item}
    (h : Inv service (w.view i service)) (hne : w.registry.kind.covers service key item = false)
    (hfiled : Filed Plain w.registry.kind entries)
    (hsame : ∀ x, entries.lookup (w.registry.kind.key service x) = w.registry.held service x) :
    let v := World.view { w with registry := Registry.publish { w.registry with entries } type key item } i service
    Inv service v ∧ Later (w.view i service) v := by
  have hwatch : (w.registry.watches i).map (Registry.deliver w.registry.kind type key item) = w.registry.watches i := by
    cases hwatch : w.registry.watches i with
    | none => rfl
    | some watch =>
      have hsilent : w.registry.kind.announces watch.service type key item = none := by
        rw [h.service watch hwatch, RegistryKind.announces, hne]
        rfl
      rw [Option.map_some, Registry.deliver, hsilent]
  refine ⟨h.of_expected rfl hfiled (funext fun x => congrArg _ (hsame x)) (expected_congr rfl rfl hwatch) ?_
    (listening_congr hwatch).mp rfl, rfl, rfl, rfl, fun _ => hwatch⟩
  exact fun watch hmem => h.service watch (hwatch.symm.trans hmem)

theorem publish_own {item : Registration} {type : EventType} {entries : AList fun _ : String => Item}
    {event : Event} (value : Option Registration) (h : Inv item.service (w.view i item.service))
    (hevent : w.registry.kind.announces item.service type (w.registry.kind.key item.service item.instanceID) item = some event)
    (hfiled : Filed Plain w.registry.kind entries)
    (hsame : ∀ x, (entries.lookup (w.registry.kind.key item.service x)).map Item.registration =
      Function.update (w.view i item.service).registered item.instanceID value x)
    (hheard : (w.view i item.service).Attentive → ∀ known, event.apply known = Function.update known item.instanceID value)
    (hnoticed : (w.view i item.service).Attentive ∨
      (w.view i item.service).Early ∧ (value = none → (w.view i item.service).expected item.instanceID = none) ∨
        (w.view i item.service).registered item.instanceID = value) :
    let registry := Registry.publish { w.registry with entries } type (w.registry.kind.key item.service item.instanceID) item
    let v := World.view { w with registry } i item.service
    Inv item.service v ∧ Later (w.view i item.service) v := by
  refine Change.inv ⟨funext hsame, rfl, hfiled, ?_, rfl, rfl, rfl, hheard, hnoticed⟩ h
  refine Option.map_congr fun watch hwatch => ?_
  rw [Registry.deliver, h.service watch hwatch, hevent]
  rfl

theorem kept_of_view_eq (h : Inv service (w.view i service)) (hview : w'.view i service = w.view i service) :
    Inv service (w'.view i service) ∧ Later (w.view i service) (w'.view i service) := by
  rw [hview]
  exact ⟨h, .refl _⟩

theorem covers_eq_false {kind : RegistryKind} {item : Registration} (hservice : Plain service) (hitem : Plain item.service)
    (hne : item.service ≠ service) : kind.covers service (kind.key item.service item.instanceID) item = false :=
  Bool.eq_false_iff.mpr fun h => hne ((RegistryKind.covers_key_iff hservice hitem).mp h)

theorem kept_register (h : Inv service (w.view i service)) (item : Registration) (hg : Timely i service j e w (.register item))
    (haccepts : w.registry.refuses item e.failure = none) :
    Inv service (World.view { w with registry := w.registry.register j item } i service) ∧
      Later (w.view i service) (World.view { w with registry := w.registry.register j item } i service) := by
  obtain ⟨hplain, hg⟩ := hg
  have hfiled := h.filed.insert hplain j
  by_cases hs : item.service = service
  · subst hs
    refine publish_own (some item) h (RegistryKind.announces_put ..) hfiled (fun x => ?_) (fun _ _ => rfl) ?_
    · rw [lookup_insert_key hplain hplain, Function.update_apply]
      by_cases hx : x = item.instanceID
      · simp [hx]
      · simp [hx, View.registered, World.view]
    · by_cases hsame : (w.view i item.service).registered item.instanceID = some item
      · exact .inr (.inr hsame)
      · exact (hg rfl haccepts hsame).imp id fun hearly => .inl ⟨hearly, fun hnone => by cases hnone⟩
  · refine publish_other h (covers_eq_false h.plain hplain hs) hfiled fun x => ?_
    exact (lookup_insert_key h.plain hplain j x).trans (if_neg fun heq => hs heq.1.symm)

theorem kept_deregister (h : Inv service (w.view i service)) (item : Registration)
    (hg : Timely i service j e w (.deregister item)) :
    Inv service (World.view { w with registry := w.registry.deregister j item } i service) ∧
      Later (w.view i service) (World.view { w with registry := w.registry.deregister j item } i service) := by
  obtain ⟨hplain, hg⟩ := hg
  have hfiled := h.filed.erase (w.registry.kind.key item.service item.instanceID)
  revert hg
  unfold Registry.deregister
  dsimp only
  split
  next hends =>
    intro hg
    by_cases hs : item.service = service
    · subst hs
      obtain ⟨r, hevent, hname⟩ := RegistryKind.announces_delete w.registry.kind item
      have hgone : (w.registry.entries.erase (w.registry.kind.key item.service item.instanceID)).lookup
          (w.registry.kind.key item.service item.instanceID) = none := AList.lookup_erase _ _
      have hg : w.registry.held item.service item.instanceID ≠ none → _ := fun hne => hg rfl fun heq => hne (heq ▸ hgone)
      refine publish_own none h hevent hfiled (fun x => ?_) (fun hattentive known => ?_) ?_
      · rw [lookup_erase_key hplain hplain, Function.update_apply]
        by_cases hx : x = item.instanceID
        · simp [hx]
        · simp [hx, View.registered, World.view]
      · show Function.update known r.instanceID none = _
        rw [hname]
        split
        · rfl
        · rename_i hkind
          have hheld : w.registry.held item.service item.instanceID ≠ none := by
            intro hnone
            have hlease := hends.resolve_left hkind
            rw [show w.registry.entries.lookup _ = none from hnone] at hlease
            cases hlease
          rcases hg hheld with ⟨-, hlast⟩ | ⟨hearly, -⟩
          · rw [hlast hkind]
          · exact absurd (listening_of_attentive hattentive) hearly.1
      · by_cases hnone : w.registry.held item.service item.instanceID = none
        · exact .inr (.inr (congrArg (Option.map Item.registration) hnone))
        · exact (hg hnone).imp And.left fun hearly => .inl ⟨hearly.1, fun _ => hearly.2⟩
    · refine publish_other h (covers_eq_false h.plain hplain hs) hfiled fun x => ?_
      exact (lookup_erase_key h.plain hplain x).trans (if_neg fun heq => hs heq.1.symm)
  next => exact fun _ => ⟨h, .refl _⟩

theorem kept_exec {c : Cmd} {r : Ans c} (hj : j ≠ i) (h : Inv service (w.view i service)) (hg : Timely i service j e w c)
    (hx : exec m j e w c = some (r, w')) :
    Inv service (w'.view i service) ∧ Later (w.view i service) (w'.view i service) := by
  have hworld := exec_world hx
  have hi : i ≠ j := Ne.symm hj
  cases c with
  | discover name =>
    refine kept_of_view_eq h ?_
    simp only [exec] at hx
    split at hx <;> try split at hx
    all_goals cases hx
    all_goals simp only [World.view, Function.update_of_ne hi]
  | watch name =>
    refine kept_of_view_eq h ?_
    simp only [exec] at hx
    split at hx <;> cases hx <;> simp only [World.view, World.watch, Function.update_of_ne hi]
  | nextEvent =>
    refine kept_of_view_eq h ?_
    simp only [exec, World.nextEvent] at hx
    split at hx <;> cases hx <;> simp only [World.view, Function.update_of_ne hi]
  | upsert key registration =>
    exact kept_of_view_eq h (hworld _ rfl ▸ view_upsert key registration (foreign_key (hg hj)) hi)
  | remove key => exact kept_of_view_eq h (hworld _ rfl ▸ view_remove key (foreign_key (hg hj)) hi)
  | register item =>
    simp only [exec] at hx
    split at hx <;> cases hx
    · exact ⟨h, .refl _⟩
    · rename_i haccepts
      exact kept_register h item hg haccepts
  | deregister item =>
    cases hx
    exact kept_deregister h item hg
  | endWatch watcher =>
    simp only [exec, World.endWatch] at hx
    split at hx <;> cases hx
    by_cases hwatcher : i = watcher
    · subst hwatcher
      simp only [World.view, Function.update_self]
      exact inv_close h
    · refine kept_of_view_eq h ?_
      simp only [World.view, Function.update_of_ne hwatcher]
  | _ => exact kept_of_view_eq h (view_aside hx trivial)

/-! ## The program of the watcher -/

section
variable (m : Config) (i : Nat) (service : String)

def Rely (j : Nat) (w w' : World) : Prop := j = i → Later (w.view i service) (w'.view i service)

abbrev Sound {α : Type} (j : Nat) (post : World → α → Prop) (p : Prog Ans α) (w : World) : Prop :=
  Pool.Safe (exec m) (Timely i service) (fun w => Inv service (w.view i service)) (Rely i service) j post p w

structure Quiet (w : World) : Prop where
  received : (w.view i service).received = none
  discovered : (w.view i service).discovered = none

structure Idle (w : World) : Prop where
  quiet : ¬ (w.view i service).Listening
  pending : (w.view i service).pending = []

end

theorem Rely.refl (j : Nat) (w : World) : Rely i service j w w := fun _ => .refl _

theorem Rely.trans (j : Nat) (a b c : World) (h : Rely i service j a b) (h' : Rely i service j b c) : Rely i service j a c :=
  fun hj => (h hj).trans (h' hj)

theorem Quiet.later (h : Quiet i service w) (hl : Rely i service i w w') : Quiet i service w' :=
  ⟨(hl rfl).received.trans h.received, (hl rfl).discovered.trans h.discovered⟩

theorem Idle.later (h : Idle i service w) (hl : Rely i service i w w') : Idle i service w' :=
  ⟨(hl rfl).listening h.quiet, ((hl rfl).pending h.quiet).trans h.pending⟩

variable {α : Type} {post : World → α → Prop}

theorem sound_other (hj : j ≠ i) (p : Prog Ans α) : Sound m i service j (fun _ _ => True) p w := by
  refine Pool.Safe.of_uses (fun _ _ h _ => h) (fun e w c r w' _ hi _ hg hx => ?_) (Prog.uses_true p) trivial
  obtain ⟨hinv, hlater⟩ := kept_exec hj hi hg hx
  exact ⟨hinv, fun _ _ _ => hlater, trivial⟩

theorem sound_aside {keep : World → Prop} (hkeep : ∀ a b, keep a → Rely i service i a b → keep b) {p : Prog Ans α}
    (hp : p.Uses Aside) (hw : keep w) : Sound m i service i (fun w _ => keep w) p w := by
  refine Pool.Safe.of_uses hkeep (fun e w c r w' hc hi hk _ hx => ?_) hp hw
  have hview : w'.view i service = w.view i service := view_aside hx hc
  refine ⟨hview ▸ hi, fun j hj h => absurd h hj, hkeep w w' hk fun _ => ?_⟩
  rw [hview]
  exact .refl _

theorem uses_connect (key : String) (registration : Registration) : (Manager.connect m key registration).Uses Aside := by
  unfold Manager.connect
  split_ifs
  · trivial
  refine ⟨trivial, fun dialled => ?_⟩
  cases dialled with
  | error err => trivial
  | ok =>
    refine ⟨trivial, fun set => ?_⟩
    cases set with
    | error err => trivial
    | ok client =>
      refine ⟨trivial, fun present => ?_⟩
      cases present <;> exact ⟨trivial, fun _ => trivial⟩

theorem view_own_upsert (instanceID : String) (registration : Registration) :
    (w.upsert m i (managerKey service instanceID) registration).2.view i service =
      { w.view i service with
        known := Function.update (w.view i service).known instanceID (some registration), received := none } := by
  have hknown : (fun x => (w.known.insert (managerKey service instanceID) registration).lookup (managerKey service x)) =
      Function.update (w.view i service).known instanceID (some registration) := by
    funext x
    by_cases hx : x = instanceID
    · rw [hx, AList.lookup_insert, Function.update_self]
    · rw [AList.lookup_insert_ne fun h => hx (managerKey_inj.mp h), Function.update_of_ne hx]
      rfl
  have hview : World.view { w with
      known := w.known.insert (managerKey service instanceID) registration
      received := Function.update w.received i none } i service = { w.view i service with
        known := Function.update (w.view i service).known instanceID (some registration), received := none } := by
    simp only [World.view, Function.update_self, hknown]
  unfold World.upsert
  dsimp only
  split_ifs <;> exact hview

theorem view_own_remove (instanceID : String) :
    (w.remove i (managerKey service instanceID)).2.view i service =
      { w.view i service with known := Function.update (w.view i service).known instanceID none, received := none } := by
  have hknown : (fun x => (w.known.erase (managerKey service instanceID)).lookup (managerKey service x)) =
      Function.update (w.view i service).known instanceID none := by
    funext x
    by_cases hx : x = instanceID
    · rw [hx, AList.lookup_erase, Function.update_self]
    · rw [AList.lookup_erase_ne fun h => hx (managerKey_inj.mp h), Function.update_of_ne hx]
      rfl
  simp only [World.view, World.remove, Function.update_self, hknown]

theorem sound_upsert {keep : World → Prop} (hkeep : ∀ a b, keep a → Rely i service i a b → keep b)
    (registration : Registration)
    (h : ∀ w₁, Rely i service i w w₁ → Inv service (w₁.view i service) →
      Inv service { w₁.view i service with
        known := Function.update (w₁.view i service).known registration.instanceID (some registration), received := none } ∧
      ∀ w₂, w₂.view i service = { w₁.view i service with
        known := Function.update (w₁.view i service).known registration.instanceID (some registration), received := none } →
        keep w₂) :
    Sound m i service i (fun w _ => keep w) (Manager.upsert m service registration) w := by
  intro e w₁ present w₂ hr hi _ hx
  have hview : w₂.view i service = { w₁.view i service with
      known := Function.update (w₁.view i service).known registration.instanceID (some registration), received := none } := by
    rw [← view_own_upsert (m := m) registration.instanceID registration]
    exact congrArg (fun x : Bool × World => x.2.view i service) (Option.some.inj hx).symm
  obtain ⟨hinv, hk⟩ := h w₁ hr hi
  rw [← hview] at hinv
  refine ⟨hinv, fun j hj h => absurd h hj, ?_⟩
  cases present with
  | true => exact hk w₂ hview
  | false => exact sound_aside hkeep (uses_connect _ registration) (hk w₂ hview)

structure Learning (i : Nat) (service : String) (found rest : List Registration) (w : World) : Prop where
  idle : Idle i service w
  discovered : (w.view i service).discovered = some found
  subset : rest ⊆ found
  known : ∀ r ∈ found, r ∈ rest ∨ (w.view i service).known r.instanceID = some r

theorem Learning.later {found rest : List Registration} (h : Learning i service found rest w) (hl : Rely i service i w w') :
    Learning i service found rest w' :=
  ⟨h.idle.later hl, (hl rfl).discovered.trans h.discovered, h.subset, fun r hr => (hl rfl).known ▸ h.known r hr⟩

theorem sound_upsertAll {found : List Registration} : ∀ (rest : List Registration) (w : World),
    Learning i service found rest w →
      Sound m i service i (fun w _ => Learning i service found [] w) (Manager.upsertAll m service rest) w
  | [], _, h => h
  | registration :: rest, w, h => by
    have hstep : Sound m i service i (fun w _ => Learning i service found rest w)
        (Manager.upsert m service registration) w := by
      refine sound_upsert (fun _ _ h hl => h.later hl) registration fun w₁ hr hi => ?_
      have h₁ := h.later hr
      have hregistered : ∀ r ∈ found, (w₁.view i service).registered r.instanceID = some r :=
        fun r hr => (hi.fresh found h₁.discovered r).mp hr
      have hmem : registration ∈ found := h₁.subset (List.mem_cons_self ..)
      refine ⟨inv_found hi h₁.idle.quiet h₁.idle.pending (hregistered _ hmem), fun w₂ hview => ?_⟩
      refine ⟨⟨?_, ?_⟩, ?_, fun r hr => h₁.subset (List.mem_cons_of_mem _ hr), fun r hr => ?_⟩
      · rw [hview]
        exact h₁.idle.quiet
      · rw [hview]
        exact (List.append_eq_nil_iff.mp h₁.idle.pending).2
      · rw [hview]
        exact h₁.discovered
      · rw [hview]
        show r ∈ rest ∨ Function.update (w₁.view i service).known registration.instanceID (some registration) r.instanceID = some r
        by_cases hid : r.instanceID = registration.instanceID
        · -- one instance is registered once
          have hsame := hregistered r hr
          rw [hid, hregistered _ hmem] at hsame
          rw [hid, Function.update_self]
          exact .inr hsame
        · rw [Function.update_of_ne hid]
          refine (h₁.known r hr).imp (fun hmem' => ?_) id
          rcases List.mem_cons.mp hmem' with rfl | hmem'
          · exact absurd rfl hid
          · exact hmem'
    exact Pool.Safe.bind (hstep.mono fun w _ h => sound_upsertAll rest w h)

theorem sound_handleEvent {event : Event} (h : (w.view i service).received = some event)
    (hd : (w.view i service).discovered = none) :
    Sound m i service i (fun w _ => Quiet i service w) (Manager.handleEvent m service event) w := by
  unfold Manager.handleEvent
  split
  · rename_i htype
    refine sound_upsert (fun _ _ h hl => h.later hl) _ fun w₁ hr hi => ?_
    have hreceived : (w₁.view i service).received = some event := (hr rfl).received.trans h
    have hinv := inv_handle hi hreceived
    simp only [Event.apply, htype] at hinv
    refine ⟨hinv, fun w₂ hview => ⟨?_, ?_⟩⟩
    · rw [hview]
    · rw [hview]
      exact (hr rfl).discovered.trans hd
  · rename_i htype
    intro e w₁ r w₂ hr hi _ hx
    have hreceived : (w₁.view i service).received = some event := (hr rfl).received.trans h
    have hinv := inv_handle hi hreceived
    have hview : w₂.view i service = { w₁.view i service with
        known := Function.update (w₁.view i service).known event.registration.instanceID none, received := none } := by
      rw [← view_own_remove event.registration.instanceID]
      exact congrArg (fun x : Option Nat × World => x.2.view i service) (Option.some.inj hx).symm
    simp only [Event.apply, htype] at hinv
    rw [← hview] at hinv
    refine ⟨hinv, fun j hj h => absurd h hj, ?_⟩
    have hquiet : Quiet i service w₂ := by
      refine ⟨?_, ?_⟩
      · rw [hview]
      · rw [hview]
        exact (hr rfl).discovered.trans hd
    cases r with
    | none => exact hquiet
    | some client => exact sound_aside (fun _ _ h hl => h.later hl) ⟨trivial, fun _ => trivial⟩ hquiet

def Ready (i : Nat) (service : String) (w : World) : Prop := Quiet i service w ∧ Idle i service w

theorem Ready.later (h : Ready i service w) (hl : Rely i service i w w') : Ready i service w' :=
  ⟨h.1.later hl, h.2.later hl⟩

theorem sound_handleEvents {again : Prog Ans Unit}
    (hagain : ∀ w, Ready i service w → Sound m i service i (fun _ _ => True) again w) : ∀ (n : Nat) (w : World),
      Quiet i service w → Sound m i service i (fun _ _ => True) (Manager.handleEvents m service again n) w
  | 0, _, _ => trivial
  | n + 1, w, h => by
    intro e w₁ r w₂ hr hi _ hx
    have h₁ := h.later hr
    simp only [exec, World.nextEvent] at hx
    split at hx <;> cases hx
    · rename_i name event buffer isOpen hwatch
      have hview : World.view { w₁ with
          registry := { w₁.registry with
            watches := Function.update w₁.registry.watches i (some ⟨name, buffer, isOpen⟩) }
          received := Function.update w₁.received i (some event) } i service =
          { w₁.view i service with watch := some ⟨name, buffer, isOpen⟩, received := some event } := by
        simp only [World.view, Function.update_self]
      have hinv := inv_next hi hwatch h₁.received
      rw [← hview] at hinv
      refine ⟨hinv, fun j hj h => absurd h hj, ?_⟩
      show Sound m i service i _ (Manager.handleEvent m service event >>= fun _ => _) _
      refine Pool.Safe.bind ((sound_handleEvent ?_ ?_).mono fun w _ h => sound_handleEvents hagain n w h)
      · rw [hview]
      · rw [hview]
        exact h₁.discovered
    · rename_i name hwatch
      refine ⟨hi, fun j hj h => absurd h hj, hagain w₁ ⟨h₁, ?_, ?_⟩⟩
      · simp [View.Listening, World.view, hwatch]
      · have hreceived : w₁.received i = none := h₁.received
        simp [View.pending, World.view, hwatch, hreceived]

structure Caught (i : Nat) (service : String) (w : World) : Prop where
  idle : Idle i service w
  known : ∀ found, (w.view i service).discovered = some found →
    ∀ r ∈ found, (w.view i service).known r.instanceID = some r

theorem Caught.later (h : Caught i service w) (hl : Rely i service i w w') : Caught i service w' := by
  refine ⟨h.idle.later hl, fun found hfound r hr => ?_⟩
  rw [(hl rfl).discovered] at hfound
  rw [(hl rfl).known]
  exact h.known found hfound r hr

theorem sound_watch {again : Prog Ans Unit}
    (hagain : ∀ w, Ready i service w → Sound m i service i (fun _ _ => True) again w) (n : Nat) (h : Caught i service w) :
    Sound m i service i (fun _ _ => True)
      (.call (Cmd.watch service) fun err => match err with
        | some _ => again
        | none => Manager.handleEvents m service again n) w := by
  intro e w₁ r w₂ hr hi hg hx
  have h₁ := h.later hr
  have hreceived : (w₁.view i service).received = none :=
    Option.toList_eq_nil_iff.mp (List.append_eq_nil_iff.mp h₁.idle.pending).1
  simp only [exec] at hx
  split at hx <;> cases hx
  · have hview : World.view { w₁ with discovered := Function.update w₁.discovered i none } i service =
        { w₁.view i service with discovered := none } := by
      simp only [World.view, Function.update_self]
    have hinv := inv_forget hi
    rw [← hview] at hinv
    refine ⟨hinv, fun j hj h => absurd h hj, hagain _ ⟨⟨?_, ?_⟩, ?_, ?_⟩⟩
    · rw [hview]
      exact hreceived
    · rw [hview]
    · rw [hview]
      exact h₁.idle.quiet
    · rw [hview]
      exact h₁.idle.pending
  · rename_i hfailure
    have hview : (w₁.watch i service).view i service =
        { w₁.view i service with watch := some { service }, discovered := none } := by
      simp only [World.view, World.watch, Function.update_self]
    have hknown : (w₁.view i service).known = (w₁.view i service).registered := by
      cases hdiscovered : (w₁.view i service).discovered with
      | none => exact funext ((hg rfl hfailure).resolve_left fun hne => hne hdiscovered)
      | some found => exact known_eq_registered hi h₁.idle.pending hdiscovered (h₁.known found hdiscovered)
    have hinv := inv_open hi hreceived hknown
    rw [← hview] at hinv
    refine ⟨hinv, fun j hj h => absurd h hj, sound_handleEvents hagain n _ ⟨?_, ?_⟩⟩
    · rw [hview]
      exact hreceived
    · rw [hview]

theorem sound_watchService : ∀ (n : Nat) (w : World), Ready i service w →
    Sound m i service i (fun _ _ => True) (Manager.watchService m service n) w
  | 0, _, _ => trivial
  | n + 1, w, h => by
    have hagain : ∀ w, Ready i service w → Sound m i service i (fun _ _ => True)
        (do if ← Prog.perform Cmd.wait then Manager.watchService m service n) w := by
      intro w h
      have hwait : Sound m i service i (fun w _ => Ready i service w) (Prog.perform Cmd.wait) w :=
        sound_aside (fun _ _ h hl => h.later hl) ⟨trivial, fun _ => trivial⟩ h
      refine Pool.Safe.bind (hwait.mono fun w waited h => ?_)
      cases waited with
      | false => trivial
      | true => exact sound_watchService n w h
    have hcontext : Sound m i service i (fun w _ => Ready i service w) (Prog.perform Cmd.contextErr) w :=
      sound_aside (fun _ _ h hl => h.later hl) ⟨trivial, fun _ => trivial⟩ h
    refine Pool.Safe.bind (hcontext.mono fun w cancelled h => ?_)
    cases cancelled with
    | true => trivial
    | false =>
      intro e w₁ r w₂ hr hi _ hx
      have h₁ := h.later hr
      have hcaught : Caught i service w₁ :=
        ⟨h₁.2, fun found hfound => absurd (h₁.1.discovered.symm.trans hfound) (by simp)⟩
      simp only [exec] at hx
      split at hx
      · split at hx <;> cases hx
        exact ⟨hi, fun j hj h => absurd h hj, sound_watch hagain n hcaught⟩
      · cases hx
        have hview : World.view { w₁ with
            discovered := Function.update w₁.discovered i (some (w₁.registry.discover service e.order)) } i service =
            { w₁.view i service with discovered := some (w₁.registry.discover service e.order) } := by
          simp only [World.view, Function.update_self]
        have hinv := inv_discover hi h₁.2.quiet (w₁.registry.discover service e.order)
          (Registry.mem_discover hi.filed hi.plain e.order)
        rw [← hview] at hinv
        refine ⟨hinv, fun j hj h => absurd h hj, ?_⟩
        show Sound m i service i _ (Manager.upsertAll m service (w₁.registry.discover service e.order) >>= fun _ => _) _
        refine Pool.Safe.bind ((sound_upsertAll _ _ ⟨⟨?_, ?_⟩, ?_, fun _ h => h, fun r hr => .inl hr⟩).mono fun w _ h => ?_)
        · rw [hview]
          exact h₁.2.quiet
        · rw [hview]
          exact h₁.2.pending
        · rw [hview]
        · refine sound_watch hagain n ⟨h.idle, fun found hfound r hr => ?_⟩
          rw [h.discovered, Option.some.injEq] at hfound
          exact (h.known r (hfound ▸ hr)).resolve_left List.not_mem_nil

end Following

def Registry.new (kind : RegistryKind) (items : List Registration) : Registry where
  kind
  entries := items.foldl (fun entries item => entries.insert (kind.key item.service item.instanceID) ⟨item, 0⟩) ∅
  watches _ := none

theorem Following.inv_new (kind : RegistryKind) {items : List Registration} (hitems : ∀ item ∈ items, Plain item.service)
    (i : Nat) {service : String} (hservice : Plain service) :
    Following.Inv service (World.view { registry := Registry.new kind items } i service) := by
  have hquiet : ¬ (World.view { registry := Registry.new kind items } i service).Listening := by
    simp [View.Listening, World.view, Registry.new]
  have hfiled : Filed Plain kind (Registry.new kind items).entries :=
    List.foldlRecOn items _ (motive := Filed Plain kind) (fun key item h => absurd h (by simp))
      fun _ h item hitem => h.insert (hitems item hitem) 0
  exact ⟨fun _ hwatch => (nomatch hwatch), hservice, hfiled, fun hl => absurd hl hquiet, fun _ _ => rfl,
    fun hl => absurd hl hquiet, fun _ hfound => (nomatch hfound)⟩

/-- In every run in which each change is noticed, whenever the watch of a service
is open and all that was delivered has been handled, the manager knows exactly
the instances that are registered. -/
theorem discovery_converges (m : Config) (kind : RegistryKind) (items : List Registration)
    (hitems : ∀ item ∈ items, Plain item.service) (calls : List Call) (i : Nat) (service : String) (hservice : Plain service)
    (rounds : Nat) (hcall : calls[i]? = some (.watchService service rounds)) (schedule : List (Nat × Env))
    (h : Pool.Along (exec m) (Pool.Issues (Timely i service)) (State.init m (Registry.new kind items) calls) schedule) :
    Converged i service (Pool.run (exec m) (State.init m (Registry.new kind items) calls) schedule).world := by
  have hgood : Pool.Good (exec m) (Timely i service) (fun w => Following.Inv service (w.view i service))
      (Following.Rely i service) (fun _ _ _ => True) (State.init m (Registry.new kind items) calls) := by
    refine Pool.good_start Following.Rely.refl (Following.inv_new kind hitems i hservice) fun j p hp => ?_
    rw [List.getElem?_map] at hp
    by_cases hj : j = i
    · subst hj
      rw [hcall] at hp
      cases hp
      have hready : Following.Ready j service { registry := Registry.new kind items } :=
        ⟨⟨rfl, rfl⟩, by simp [View.Listening, World.view, Registry.new], rfl⟩
      exact Pool.Safe.bind ((Following.sound_watchService rounds _ hready).mono fun _ _ _ => trivial)
    · exact Following.sound_other hj p
  have hinv := (Pool.safe_run Following.Rely.refl Following.Rely.trans hgood h).world
  intro hlistening hpending instanceID
  have hexpected := hinv.tracks hlistening
  rw [View.expected, hpending, List.foldl_nil] at hexpected
  exact congrFun hexpected instanceID

theorem discovery_converges_put :
    let s := Pool.run (exec gateway) (State.init gateway (Registry.new .static []) [.watchService "lobby" 9, .register lobby1])
      (Pool.inOrder [0, 0, 0, 1, 0, 0])
    Converged 0 "lobby" s.world ∧ s.world.known.lookup "lobby/lobby-1" = some lobby1 := by
  refine ⟨discovery_converges gateway .static [] nofun _ 0 "lobby" (by decide) 9 rfl _ ?_, by decide⟩
  refine ⟨?_, ?_, ?_, ?_, ?_, ?_, trivial⟩
  all_goals intro c k hp; cases hp
  · trivial
  · trivial
  · exact fun _ _ => .inl (by decide)
  · exact ⟨by decide, fun _ _ _ => .inl ⟨_, rfl, rfl, fun _ => by decide⟩⟩
  · trivial
  · exact fun h => absurd rfl h

theorem change_before_watch_missed :
    let s kind := Pool.run (exec gateway) (State.init gateway (Registry.new kind []) [.watchService "lobby" 9, .register lobby1])
      (Pool.inOrder [0, 0, 1, 0])
    ∀ kind ∈ [RegistryKind.static, .etcd "/game"],
      ((s kind).world.view 0 "lobby").Listening ∧ ((s kind).world.view 0 "lobby").pending = [] ∧
        ((s kind).world.view 0 "lobby").known "lobby-1" = none ∧
        ((s kind).world.view 0 "lobby").registered "lobby-1" = some lobby1 ∧ ¬ Converged 0 "lobby" (s kind).world := by
  intro s kind hkind
  have hmissed : ∀ kind ∈ [RegistryKind.static, .etcd "/game"],
      ((s kind).world.view 0 "lobby").Listening ∧ ((s kind).world.view 0 "lobby").pending = [] ∧
        ((s kind).world.view 0 "lobby").known "lobby-1" = none ∧
        ((s kind).world.view 0 "lobby").registered "lobby-1" = some lobby1 := by decide
  obtain ⟨hlistening, hpending, hknown, hregistered⟩ := hmissed kind hkind
  refine ⟨hlistening, hpending, hknown, hregistered, fun h => ?_⟩
  have hsame := h hlistening hpending "lobby-1"
  rw [hknown, hregistered] at hsame
  cases hsame

end GameServer.Discovery
