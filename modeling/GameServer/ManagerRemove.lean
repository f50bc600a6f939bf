import GameServer.ManagerClients

/-!
# Clients of removed instances

The section that inserts a client does not look whether its instance is still
known. So the manager holds clients of known instances only, exactly as long as
no instance is forgotten between the section that found its client missing and
that one; and then, after a removal, no client of the instance is handed out
until it is upserted again.
-/

namespace GameServer.Discovery

def Held (w : World) : Prop := ∀ key ∈ w.clients, key ∈ w.known

def Wanted (_ : Nat) (_ : Env) (w : World) : Cmd → Prop
  | .insert key _ _ => key ∈ w.known
  | _ => True

def Unhurried (_ : Nat) (_ : Env) (w : World) : Cmd → Prop
  | .remove key => ∀ x ∈ w.connecting, x.2 ≠ key
  | _ => True

section
variable {m : Config} {i : Nat} {w w' : World}

theorem held_insert (h : Held w) (i : Nat) (key : String) (registration : Registration) (client : Nat) :
    Held (w.insert i key registration client).2 ↔ key ∈ w.known := by
  unfold World.insert
  dsimp only
  split_ifs with hclient
  · exact ⟨fun _ => h key hclient, fun _ => h⟩
  · constructor
    · exact fun hheld => hheld key (AList.mem_insert _ |>.mpr (.inl rfl))
    · intro hknown key' hkey'
      rcases (AList.mem_insert _).mp hkey' with rfl | hkey'
      · exact hknown
      · exact h key' hkey'

theorem held_drop (h : Held w) (i : Nat) (key : String) (client : Nat) : Held (w.drop m i key client).2 := by
  have hclients : ∀ key' ∈ if (w.clients.lookup key).any (·.client = client) then w.clients.erase key else w.clients,
      key' ∈ w.known := by
    intro key' hkey'
    split_ifs at hkey'
    · exact h key' (AList.mem_erase.mp hkey').2
    · exact h key' hkey'
  unfold World.drop
  dsimp only
  generalize (if (w.clients.lookup key).any (·.client = client) then w.clients.erase key else w.clients) = clients
    at hclients ⊢
  split
  · exact hclients
  · split_ifs <;> exact hclients

theorem held_exec (h : Held w) {e : Env} {c : Cmd} {r : Ans c} (hw : Wanted i e w c)
    (hx : exec m i e w c = some (r, w')) : Held w' := by
  have hworld := exec_world hx
  cases c with
  | upsert key registration =>
    have hheld : ∀ key' ∈ w.clients, key' ∈ w.known.insert key registration :=
      fun key' hkey' => (AList.mem_insert _).mpr (.inr (h key' hkey'))
    rw [← hworld _ rfl]
    unfold World.upsert
    dsimp only
    split_ifs <;> exact hheld
  | insert key registration client => exact hworld _ rfl ▸ (held_insert h i key registration client).mpr hw
  | drop key client => exact hworld _ rfl ▸ held_drop h i key client
  | remove key =>
    rw [← hworld _ rfl]
    intro key' hkey'
    obtain ⟨hne, hkey'⟩ := AList.mem_erase.mp hkey'
    exact AList.mem_erase.mpr ⟨hne, h key' hkey'⟩
  | dial | newClient | takeMonitor =>
    simp only [exec] at hx
    split at hx <;> cases hx <;> exact h
  | startMonitor | cancel =>
    cases hx
    exact h
  | closeAll =>
    simp only [exec] at hx
    split at hx <;> cases hx
    exact fun key hkey => absurd hkey (AList.notMem_empty key)
  | _ =>
    obtain ⟨registry, finished, discovered, received, rfl⟩ := exec_plain hx trivial
    exact h

theorem wanted_iff (i : Nat) (e : Env) (w : World) (c : Cmd) (h : Held w) :
    Wanted i e w c ↔ ∀ r w', exec m i e w c = some (r, w') → Held w' := by
  constructor
  · exact fun hw r w' hx => held_exec h hw hx
  · intro hkeeps
    cases c with
    | insert key registration client => exact (held_insert h i key registration client).mp (hkeeps _ _ rfl)
    | _ => trivial

end

/-! ## Removals that wait for the connects -/

namespace Removal

structure Inv (w : World) : Prop where
  held : Held w
  connecting : ∀ x ∈ w.connecting, x.2 ∈ w.known

def Rely (j : Nat) (w w' : World) : Prop := ∀ key, (j, key) ∈ w.connecting → (j, key) ∈ w'.connecting

abbrev Sound {α : Type} (m : Config) (i : Nat) (post : World → α → Prop) (p : Prog Ans α) (w : World) : Prop :=
  Pool.Safe (exec m) Unhurried Inv Rely i post p w

variable {m : Config} {i : Nat} {w w' : World} {α : Type} {post : World → α → Prop}

theorem rely_release (key : String) {j : Nat} (hj : j ≠ i) : Rely j w (w.release i key) := by
  intro key' hkey
  exact List.mem_filter.mpr ⟨hkey, by simp [hj]⟩

theorem inv_release (h : Inv w) (i : Nat) (key : String) : Inv (w.release i key) :=
  ⟨h.held, fun x hx => h.connecting x (List.mem_filter.mp hx).1⟩

theorem Inv.connect (h : Inv w) (i : Nat) {key : String} (hkey : key ∈ w.known) :
    Inv { w with connecting := (i, key) :: w.connecting } :=
  ⟨h.held, List.forall_mem_cons.mpr ⟨hkey, h.connecting⟩⟩

theorem sound_plain {c : Cmd} {k : Ans c → Prog Ans α} (hc : c.Plain) (hk : ∀ r w', Rely i w w' → Sound m i post (k r) w') :
    Sound m i post (.call c k) w := by
  intro e w₁ r w₂ hr hi _ hx
  obtain ⟨registry, finished, discovered, received, rfl⟩ := exec_plain hx hc
  exact ⟨⟨hi.held, hi.connecting⟩, fun j _ key hkey => hkey, hk r _ hr⟩

theorem sound_closeClient (client : Nat) : Sound m i (fun _ _ => True) (Prog.perform (Cmd.closeClient client)) w :=
  sound_plain trivial fun _ _ _ => trivial

theorem sound_startMonitor (monitor : Monitor) : Sound m i (fun _ _ => True) (Prog.perform (Cmd.startMonitor monitor)) w := by
  intro e w₁ r w₂ hr hi _ hx
  cases hx
  exact ⟨⟨hi.held, hi.connecting⟩, fun _ _ _ h => h, trivial⟩

theorem sound_insert {key : String} (registration : Registration) (client : Nat) {k : Bool → Prog Ans α}
    (hkey : (i, key) ∈ w.connecting) (hk : ∀ r w', Sound m i post (k r) w') :
    Sound m i post (.call (.insert key registration client) k) w := by
  intro e w₁ r w₂ hr hi _ hx
  have hworld : (w₁.insert i key registration client).2 = w₂ := congrArg Prod.snd (Option.some.inj hx)
  have hheld := (held_insert hi.held i key registration client).mpr (hi.connecting _ (hr key hkey))
  have hsame : (w₁.insert i key registration client).2.known = w₁.known ∧
      (w₁.insert i key registration client).2.connecting = (w₁.release i key).connecting := by
    unfold World.insert
    dsimp only
    split_ifs <;> exact ⟨rfl, rfl⟩
  rw [hworld] at hheld hsame
  refine ⟨⟨hheld, ?_⟩, fun j hj key' hkey' => ?_, hk r w₂⟩
  · rw [hsame.1, hsame.2]
    exact (inv_release hi i key).connecting
  · rw [hsame.2]
    exact rely_release key hj key' hkey'

theorem sound_connect (key : String) (registration : Registration)
    (hkey : ¬ m.Own registration → (i, key) ∈ w.connecting) :
    Sound m i (fun _ _ => True) (Manager.connect m key registration) w := by
  unfold Manager.connect
  split_ifs with hown
  · trivial
  intro e w₁ r w₂ hr hi _ hx
  simp only [exec] at hx
  split at hx <;> cases hx
  · exact ⟨inv_release hi i key, fun j hj => rely_release key hj, trivial⟩
  refine ⟨hi, fun _ _ _ h => h, ?_⟩
  intro e w₂ r w₃ hr' hi _ hx
  simp only [exec] at hx
  split at hx <;> cases hx
  · exact ⟨inv_release hi i key, fun j hj => rely_release key hj, trivial⟩
  refine ⟨⟨hi.held, hi.connecting⟩, fun _ _ _ h => h, ?_⟩
  refine sound_insert registration _ (hr' key (hr key (hkey hown))) fun present w' => ?_
  cases present with
  | true => exact sound_closeClient _
  | false => exact sound_startMonitor _

theorem sound_upsert (serviceName : String) (registration : Registration) :
    Sound m i (fun _ _ => True) (Manager.upsert m serviceName registration) w := by
  intro e w₁ r w₂ hr hi _ hx
  have hknown : Inv { w₁ with
      known := w₁.known.insert (managerKey serviceName registration.instanceID) registration
      received := Function.update w₁.received i none } :=
    ⟨fun key hkey => (AList.mem_insert _).mpr (.inr (hi.held key hkey)),
      fun x hx => (AList.mem_insert _).mpr (.inr (hi.connecting x hx))⟩
  simp only [exec, World.upsert] at hx
  split_ifs at hx with hclient hown <;> cases hx
  · exact ⟨hknown, fun _ _ _ h => h, trivial⟩
  · exact ⟨hknown, fun _ _ _ h => h, sound_connect _ _ fun h => absurd hown h⟩
  · refine ⟨hknown.connect i ((AList.mem_insert _).mpr (.inl rfl)), fun _ _ _ h => List.mem_cons_of_mem _ h, ?_⟩
    exact sound_connect _ _ fun _ => List.mem_cons_self ..

theorem drop_spec (h : Inv w) (i : Nat) (key : String) (client : Nat) :
    Inv (w.drop m i key client).2 ∧ w.connecting ⊆ (w.drop m i key client).2.connecting ∧
      ∀ known, (w.drop m i key client).1 = some known → ¬ m.Own known →
        (i, key) ∈ (w.drop m i key client).2.connecting := by
  have hheld := held_drop (m := m) h.held i key client
  revert hheld
  unfold World.drop
  dsimp only
  generalize (if (w.clients.lookup key).any (·.client = client) then w.clients.erase key else w.clients) = clients
  split
  · exact fun hheld => ⟨⟨hheld, h.connecting⟩, fun _ h => h, fun known hknown => by cases hknown⟩
  · rename_i known hknown
    split_ifs with hown
    · refine fun hheld => ⟨⟨hheld, h.connecting⟩, fun _ h => h, fun known' hknown' hown' => ?_⟩
      exact absurd (Option.some.inj hknown' ▸ hown) hown'
    · intro hheld
      have hmem : key ∈ w.known := AList.lookup_isSome.mp (by rw [hknown]; rfl)
      have hconnecting : ∀ x ∈ (i, key) :: w.connecting, x.2 ∈ w.known :=
        List.forall_mem_cons.mpr ⟨hmem, h.connecting⟩
      exact ⟨⟨hheld, hconnecting⟩, List.subset_cons_self .., fun _ _ _ => List.mem_cons_self ..⟩

theorem sound_monitor (key : String) (client : Nat) :
    Sound m i (fun _ _ => True) (Manager.monitor m key client) w := by
  refine sound_plain trivial fun done w' _ => ?_
  cases done with
  | false => trivial
  | true =>
    intro e w₁ r w₂ hr hi _ hx
    obtain ⟨hinv, hmore, hmine⟩ := drop_spec (m := m) hi i key client
    have hpair : w₁.drop m i key client = (r, w₂) := Option.some.inj hx
    rw [hpair] at hinv hmore hmine
    refine ⟨hinv, fun j _ key' hkey' => hmore hkey', ?_⟩
    cases r with
    | none => trivial
    | some known =>
      refine sound_plain trivial fun cancelled w₃ h₃ => ?_
      cases cancelled with
      | true => trivial
      | false =>
        refine sound_plain trivial fun waited w₄ h₄ => ?_
        cases waited with
        | false => trivial
        | true => exact sound_connect key known fun hown => h₄ key (h₃ key (hmine known rfl hown))

theorem sound_remove (serviceName instanceID : String) :
    Sound m i (fun _ _ => True) (Manager.remove serviceName instanceID) w := by
  intro e w₁ r w₂ hr hi hg hx
  have hheld : Held w₂ := held_exec hi.held (by trivial) hx
  obtain rfl : (w₁.remove i (managerKey serviceName instanceID)).2 = w₂ := congrArg Prod.snd (Option.some.inj hx)
  refine ⟨⟨hheld, fun x hx => AList.mem_erase.mpr ⟨hg x hx, hi.connecting x hx⟩⟩, fun _ _ _ h => h, ?_⟩
  cases r with
  | none => trivial
  | some client => exact sound_closeClient client

theorem sound_upsertAll (serviceName : String) : ∀ (registrations : List Registration) (w : World),
    Sound m i (fun _ _ => True) (Manager.upsertAll m serviceName registrations) w
  | [], _ => trivial
  | registration :: registrations, _ =>
    Pool.Safe.bind ((sound_upsert serviceName registration).mono fun w _ _ => sound_upsertAll serviceName registrations w)

theorem sound_handleEvent (serviceName : String) (event : Event) :
    Sound m i (fun _ _ => True) (Manager.handleEvent m serviceName event) w := by
  unfold Manager.handleEvent
  split
  · exact sound_upsert serviceName _
  · exact sound_remove serviceName _

theorem sound_handleEvents (serviceName : String) {again : Prog Ans Unit}
    (hagain : ∀ w, Sound m i (fun _ _ => True) again w) : ∀ (n : Nat) (w : World),
      Sound m i (fun _ _ => True) (Manager.handleEvents m serviceName again n) w
  | 0, _ => trivial
  | n + 1, _ => by
    refine sound_plain trivial fun event w' _ => ?_
    cases event with
    | none => exact hagain w'
    | some event =>
      show Sound m i _ (Manager.handleEvent m serviceName event >>= fun _ => _) w'
      exact Pool.Safe.bind
        ((sound_handleEvent serviceName event).mono fun w _ _ => sound_handleEvents serviceName hagain n w)

theorem sound_watch (serviceName : String) {again : Prog Ans Unit} (hagain : ∀ w, Sound m i (fun _ _ => True) again w)
    (n : Nat) (w : World) :
    Sound m i (fun _ _ => True)
      (.call (Cmd.watch serviceName) fun err => match err with
        | some _ => again
        | none => Manager.handleEvents m serviceName again n) w := by
  refine sound_plain trivial fun err w' _ => ?_
  cases err with
  | some err => exact hagain w'
  | none => exact sound_handleEvents serviceName hagain n w'

theorem sound_watchService (serviceName : String) : ∀ (n : Nat) (w : World),
    Sound m i (fun _ _ => True) (Manager.watchService m serviceName n) w
  | 0, _ => trivial
  | n + 1, _ => by
    have hagain : ∀ w, Sound m i (fun _ _ => True)
        (do if ← Prog.perform Cmd.wait then Manager.watchService m serviceName n) w := by
      intro w
      refine sound_plain trivial fun waited w' _ => ?_
      cases waited with
      | false => trivial
      | true => exact sound_watchService serviceName n w'
    refine sound_plain trivial fun cancelled w' _ => ?_
    cases cancelled with
    | true => trivial
    | false =>
      refine sound_plain trivial fun found w' _ => ?_
      cases found with
      | error err => exact sound_watch serviceName hagain n w'
      | ok registrations =>
        show Sound m i _ (Manager.upsertAll m serviceName registrations >>= fun _ => _) w'
        exact Pool.Safe.bind
          ((sound_upsertAll serviceName registrations w').mono fun w _ _ => sound_watch serviceName hagain n w)

theorem sound_close : Sound m i (fun _ _ => True) Manager.close w := by
  intro e w₁ r w₂ hr hi _ hx
  cases hx
  refine ⟨⟨hi.held, hi.connecting⟩, fun _ _ _ h => h, ?_⟩
  intro e w₁ r w₂ hr hi _ hx
  simp only [exec] at hx
  split at hx <;> cases hx
  exact ⟨⟨fun key hkey => absurd hkey (AList.notMem_empty key), hi.connecting⟩, fun _ _ _ h => h, trivial⟩

theorem sound_handler (c : Call) : Sound m i (fun _ _ => True) (c.handler m) w := by
  cases c with
  | watchService serviceName rounds =>
    exact Pool.Safe.bind ((sound_watchService serviceName rounds w).mono fun _ _ _ => trivial)
  | monitor =>
    intro e w₁ r w₂ hr hi _ hx
    simp only [exec] at hx
    split at hx <;> cases hx
    refine ⟨⟨hi.held, hi.connecting⟩, fun _ _ _ h => h, ?_⟩
    show Sound m i _ (Manager.monitor m r.key r.client >>= fun _ => _) _
    exact Pool.Safe.bind ((sound_monitor _ _).mono fun _ _ _ => trivial)
  | upsert serviceName registration => exact Pool.Safe.bind ((sound_upsert serviceName registration).mono fun _ _ _ => trivial)
  | remove serviceName instanceID => exact Pool.Safe.bind ((sound_remove serviceName instanceID).mono fun _ _ _ => trivial)
  | client | anyClient | endWatch => exact sound_plain trivial fun _ _ _ => trivial
  | close => exact Pool.Safe.bind (sound_close.mono fun _ _ _ => trivial)
  | register item =>
    refine sound_plain trivial fun err w' _ => ?_
    cases err with
    | some err => trivial
    | none => exact sound_plain trivial fun _ _ _ => trivial

theorem held_along (registry : Registry) (calls : List Call) (schedule : List (Nat × Env))
    (h : Pool.Along (exec m) (Pool.Issues Unhurried) (State.init m registry calls) schedule) :
    Pool.Along (exec m) (fun s a => Held (Pool.step (exec m) s a).world) (State.init m registry calls) schedule := by
  have hinit : Inv { registry } :=
    ⟨fun key hkey => absurd hkey (AList.notMem_empty key), fun x hx => absurd hx (List.not_mem_nil)⟩
  have hrefl : ∀ (i : Nat) (w : World), Rely i w w := fun _ _ _ h => h
  have htrans : ∀ (i : Nat) (a b c : World), Rely i a b → Rely i b c → Rely i a c :=
    fun _ _ _ _ hab hbc key hkey => hbc key (hab key hkey)
  have hgood : Pool.Good (exec m) Unhurried Inv Rely (fun _ _ _ => True) (State.init m registry calls) := by
    refine Pool.good_start hrefl hinit fun i p hp => ?_
    obtain ⟨c, -, rfl⟩ := List.mem_map.mp (List.mem_of_getElem? hp)
    exact sound_handler c
  exact (Pool.safe_along hrefl htrans schedule hgood h).mono fun s a hinv => hinv.held

end Removal

/-! ## After a removal -/

section
variable {m : Config} {i : Nat} {w w' : World}

theorem unknown_exec {key : String} (h : key ∉ w.known) {e : Env} {c : Cmd} {r : Ans c}
    (hc : ∀ registration, c ≠ .upsert key registration) (hx : exec m i e w c = some (r, w')) : key ∉ w'.known := by
  have hworld := exec_world hx
  cases c with
  | upsert key' registration =>
    have hne : key ≠ key' := by
      rintro rfl
      exact hc registration rfl
    have hinsert : key ∉ w.known.insert key' registration := by
      rw [AList.mem_insert]
      exact not_or.mpr ⟨hne, h⟩
    rw [← hworld _ rfl]
    unfold World.upsert
    dsimp only
    split_ifs <;> exact hinsert
  | insert key' registration client =>
    rw [← hworld _ rfl]
    unfold World.insert
    dsimp only
    split_ifs <;> exact h
  | drop key' client =>
    rw [← hworld _ rfl]
    unfold World.drop
    dsimp only
    split
    · exact h
    · split <;> exact h
  | remove key' =>
    rw [← hworld _ rfl]
    exact fun hmem => h (AList.mem_erase.mp hmem).2
  | dial | newClient | takeMonitor | closeAll =>
    simp only [exec] at hx
    split at hx <;> cases hx <;> exact h
  | startMonitor | cancel =>
    cases hx
    exact h
  | _ =>
    obtain ⟨registry, finished, discovered, received, rfl⟩ := exec_plain hx trivial
    exact h

theorem anyClient_eq_some {service : String} {order : List Nat} {client : Nat}
    (h : w.anyClient service order = some client) :
    ∃ key managed, w.clients.lookup key = some managed ∧ managed.client = client := by
  obtain ⟨entry, hfind, hclient⟩ := Option.map_eq_some_iff.mp h
  have hmem := mem_shuffle.mp (List.mem_of_find?_eq_some hfind)
  exact ⟨entry.1, entry.2, AList.mem_lookup_iff.mpr hmem, hclient⟩

end

/-- The manager has clients of known instances only, in every state of a run,
exactly if each insertion finds its instance known, which is so if no removal
overtakes a connect. In such a run, once `remove` has taken an instance out, its
client is returned by neither `Client` nor `AnyClient` until it is upserted. -/
theorem clients_known_iff (m : Config) (registry : Registry) (calls : List Call) (schedule : List (Nat × Env)) :
    let s := State.init m registry calls
    (Pool.Along (exec m) (fun s a => Held (Pool.step (exec m) s a).world) s schedule ↔
      Pool.Along (exec m) (Pool.Issues Wanted) s schedule) ∧
    (Pool.Along (exec m) (Pool.Issues Unhurried) s schedule → Pool.Along (exec m) (Pool.Issues Wanted) s schedule) ∧
    (Pool.Along (exec m) (Pool.Issues Wanted) s schedule →
      ∀ before a after service instanceID k, schedule = before ++ a :: after →
        (Pool.run (exec m) s before).procs[a.1]? = some (.call (.remove (managerKey service instanceID)) k) →
        Pool.Along (exec m) (Pool.Issues fun _ _ _ c => ∀ registration, c ≠ .upsert (managerKey service instanceID) registration)
          (Pool.run (exec m) s (before ++ [a])) after →
        let w := (Pool.run (exec m) s schedule).world
        w.clients.lookup (managerKey service instanceID) = none ∧
          ∀ service' order client, w.anyClient service' order = some client →
            ∃ key managed, key ≠ managerKey service instanceID ∧ w.clients.lookup key = some managed ∧
              managed.client = client) := by
  intro s
  have hempty : Held s.world := fun key hkey => absurd hkey (AList.notMem_empty key)
  have hiff := Pool.inv_run_iff (wanted_iff (m := m)) hempty schedule
  refine ⟨hiff, fun h => hiff.mp (Removal.held_along registry calls schedule h), ?_⟩
  intro hwanted before a after service instanceID k hschedule hremove hafter w
  have hheld : Held w := Pool.inv_run (G := Wanted) (fun _ _ _ _ _ _ h hw hx => held_exec h hw hx) hempty hwanted
  have hremoved : managerKey service instanceID ∉ (Pool.run (exec m) s (before ++ [a])).world.known := by
    rw [Pool.run_append, Pool.run_cons, Pool.run_nil, (Pool.step_of_exec (exec m) hremove rfl).1]
    exact fun hmem => (AList.mem_erase.mp hmem).1 rfl
  have hunknown : managerKey service instanceID ∉ w.known := by
    have hrun : w = (Pool.run (exec m) (Pool.run (exec m) s (before ++ [a])) after).world := by
      rw [← Pool.run_append, List.append_assoc, List.singleton_append, ← hschedule]
    rw [hrun]
    have hstep : ∀ i e w c r w', managerKey service instanceID ∉ w.known →
        (∀ registration, c ≠ .upsert (managerKey service instanceID) registration) → exec m i e w c = some (r, w') →
          managerKey service instanceID ∉ w'.known := fun _ _ _ _ _ _ h hc hx => unknown_exec h hc hx
    exact Pool.inv_run hstep hremoved hafter
  have hnone : w.clients.lookup (managerKey service instanceID) = none :=
    AList.lookup_eq_none.mpr fun hmem => hunknown (hheld _ hmem)
  refine ⟨hnone, fun service' order client hany => ?_⟩
  obtain ⟨key, managed, hlookup, hclient⟩ := anyClient_eq_some hany
  refine ⟨key, managed, ?_, hlookup, hclient⟩
  rintro rfl
  exact absurd (hnone.symm.trans hlookup) (by simp)

theorem removed_lobby_returns :
    let s := Pool.run (exec gateway) (State.init gateway oneLobby
        [.upsert "lobby" lobby1, .monitor, .remove "lobby" "lobby-1", .client "lobby" "lobby-1", .anyClient "lobby"])
      (Pool.inOrder [0, 0, 0, 0, 0, 1] ++ (1, { streamEnds := true }) :: Pool.inOrder [1, 2, 1, 1, 1, 1, 1, 3, 4])
    s.answer 2 = some .done ∧ "lobby/lobby-1" ∈ s.world.clients ∧ "lobby/lobby-1" ∉ s.world.known ∧
      ¬ Held s.world ∧ s.answer 3 = some (.client (some 1)) ∧ s.answer 4 = some (.client (some 1)) := by
  intro s
  have hclient : "lobby/lobby-1" ∈ s.world.clients := by decide
  have hunknown : "lobby/lobby-1" ∉ s.world.known := by decide
  exact ⟨rfl, hclient, hunknown, fun h => hunknown (h _ hclient), rfl, rfl⟩

end GameServer.Discovery
