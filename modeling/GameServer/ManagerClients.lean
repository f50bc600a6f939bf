import GameServer.ClientManager

/-!
# Who looks after an instance

Every instance that is known is to have a client, or someone on the way to give
it one. A dial or a stream set-up that fails is not tried again, so this is the
case exactly as long as no attempt fails that is the only one.
-/

namespace GameServer.Discovery

def InProgress (w : World) (key : String) : Prop :=
  (∃ i, (i, key) ∈ w.connecting) ∨ (∃ i, (i, key) ∈ w.monitoring) ∨ ∃ monitor ∈ w.monitors, monitor.key = key

/-- While the manager is not closed, every instance it knows, its own apart, has
a client or someone who is about to connect to it. -/
def Attended (m : Config) (w : World) : Prop :=
  w.cancelled = false → ∀ key registration, w.known.lookup key = some registration → ¬ m.Own registration →
    key ∈ w.clients ∨ InProgress w key

/-- A dial or a stream set-up fails only for an instance that is not known any
more, has a client, or is in the hands of another connect or monitor. -/
def Backed (m : Config) (i : Nat) (e : Env) (w : World) : Cmd → Prop
  | .dial key _ | .newClient key =>
    e.failure ≠ none → w.cancelled = false → ∀ registration, w.known.lookup key = some registration →
      ¬ m.Own registration → key ∈ w.clients ∨ InProgress (w.release i key) key
  | _ => True

theorem InProgress.mono {w w' : World} {key : String} (h : InProgress w key) (hconnecting : w.connecting ⊆ w'.connecting)
    (hmonitoring : w.monitoring ⊆ w'.monitoring) (hmonitors : w.monitors ⊆ w'.monitors) : InProgress w' key := by
  rcases h with ⟨i, hi⟩ | ⟨i, hi⟩ | ⟨monitor, hmonitor, hkey⟩
  · exact .inl ⟨i, hconnecting hi⟩
  · exact .inr (.inl ⟨i, hmonitoring hi⟩)
  · exact .inr (.inr ⟨monitor, hmonitors hmonitor, hkey⟩)

theorem InProgress.release {w : World} {key key' : String} (h : InProgress w key') (i : Nat) (hne : key' ≠ key) :
    InProgress (w.release i key) key' := by
  rcases h with ⟨j, hj⟩ | h
  · refine .inl ⟨j, List.mem_filter.mpr ⟨hj, ?_⟩⟩
    simp [hne]
  · exact .inr h

theorem Attended.at_key {m : Config} {w w' : World} (h : Attended m w) (key : String) (hcancelled : w'.cancelled = w.cancelled)
    (hknown : ∀ k, k ≠ key → w'.known.lookup k = w.known.lookup k) (hclients : ∀ k, k ≠ key → k ∈ w.clients → k ∈ w'.clients)
    (hbusy : ∀ k, k ≠ key → InProgress w k → InProgress w' k)
    (hkey : w.cancelled = false → ∀ registration, w'.known.lookup key = some registration → ¬ m.Own registration →
      key ∈ w'.clients ∨ InProgress w' key) : Attended m w' := by
  intro hopen k registration hk hown
  rw [hcancelled] at hopen
  by_cases hne : k = key
  · subst hne
    exact hkey hopen registration hk hown
  · rw [hknown k hne] at hk
    rcases h hopen k registration hk hown with hclient | hprogress
    · exact .inl (hclients k hne hclient)
    · exact .inr (hbusy k hne hprogress)

variable {m : Config} {w : World}

theorem attended_release (h : Attended m w) (i : Nat) (key : String) :
    Attended m (w.release i key) ↔
      (w.cancelled = false → ∀ registration, w.known.lookup key = some registration → ¬ m.Own registration →
        key ∈ w.clients ∨ InProgress (w.release i key) key) := by
  constructor
  · exact fun hatt hopen registration => hatt hopen key registration
  · intro hkey
    exact h.at_key key rfl (fun _ _ => rfl) (fun _ _ hk => hk) (fun k hne hk => hk.release i hne) hkey

theorem attended_upsert (h : Attended m w) (i : Nat) (key : String) (registration : Registration) :
    Attended m (w.upsert m i key registration).2 := by
  have hknown : ∀ k, k ≠ key → (w.known.insert key registration).lookup k = w.known.lookup k :=
    fun k hne => AList.lookup_insert_ne hne
  unfold World.upsert
  dsimp only
  split_ifs with hclient hown
  · exact h.at_key key rfl hknown (fun _ _ hk => hk) (fun _ _ hk => hk) fun _ _ _ _ => .inl hclient
  · refine h.at_key key rfl hknown (fun _ _ hk => hk) (fun _ _ hk => hk) fun _ registration' hk hown' => ?_
    rw [AList.lookup_insert, Option.some.injEq] at hk
    exact absurd (hk ▸ hown) hown'
  · exact h.at_key key rfl hknown (fun _ _ hk => hk)
      (fun _ _ hk => hk.mono (List.subset_cons_self ..) (fun _ h => h) (fun _ h => h))
      fun _ _ _ _ => .inr (.inl ⟨i, List.mem_cons_self ..⟩)

theorem attended_insert (h : Attended m w) (i : Nat) (key : String) (registration : Registration) (client : Nat) :
    Attended m (w.insert i key registration client).2 := by
  unfold World.insert
  dsimp only
  split_ifs with hclient
  · exact h.at_key key rfl (fun _ _ => rfl) (fun _ _ hk => hk) (fun k hne hk => hk.release i hne)
      fun _ _ _ _ => .inl hclient
  · exact h.at_key key rfl (fun _ _ => rfl) (fun k _ hk => AList.mem_insert _ |>.mpr (.inr hk))
      (fun k hne hk => hk.release i hne) fun _ _ _ _ => .inl (AList.mem_insert _ |>.mpr (.inl rfl))

theorem attended_drop (h : Attended m w) (i : Nat) (key : String) (client : Nat) :
    Attended m (w.drop m i key client).2 := by
  have hclients : ∀ k, k ≠ key → k ∈ w.clients →
      k ∈ if (w.clients.lookup key).any (·.client = client) then w.clients.erase key else w.clients := by
    intro k hne hk
    split_ifs
    · exact AList.mem_erase.mpr ⟨hne, hk⟩
    · exact hk
  have hmonitoring : ∀ k, k ≠ key → InProgress w k → ∀ connecting, w.connecting ⊆ connecting → ∀ clients,
      InProgress { w with clients, monitoring := w.monitoring.filter (· ≠ (i, key)), connecting } k := by
    intro k hne hk connecting hsub clients
    rcases hk with ⟨j, hj⟩ | ⟨j, hj⟩ | hmonitor
    · exact .inl ⟨j, hsub hj⟩
    · exact .inr (.inl ⟨j, List.mem_filter.mpr ⟨hj, by simp [hne]⟩⟩)
    · exact .inr (.inr hmonitor)
  unfold World.drop
  dsimp only
  generalize (if (w.clients.lookup key).any (·.client = client) then w.clients.erase key else w.clients) = clients
    at hclients ⊢
  split
  · rename_i hknown
    refine h.at_key key rfl (fun _ _ => rfl) hclients (fun k hne hk => hmonitoring k hne hk _ (fun _ h => h) _) ?_
    intro _ registration hk
    exact absurd (hknown.symm.trans hk) (by simp)
  · rename_i known hknown
    split_ifs with hown
    · refine h.at_key key rfl (fun _ _ => rfl) hclients (fun k hne hk => hmonitoring k hne hk _ (fun _ h => h) _) ?_
      intro _ registration hk hown'
      cases hknown.symm.trans hk
      exact absurd hown hown'
    · exact h.at_key key rfl (fun _ _ => rfl) hclients
        (fun k hne hk => hmonitoring k hne hk _ (List.subset_cons_self ..) _)
        fun _ _ _ _ => .inr (.inl ⟨i, List.mem_cons_self ..⟩)

theorem attended_remove (h : Attended m w) (i : Nat) (key : String) : Attended m (w.remove i key).2 := by
  refine h.at_key key rfl (fun k hne => AList.lookup_erase_ne hne) (fun k hne hk => AList.mem_erase.mpr ⟨hne, hk⟩)
    (fun _ _ hk => hk) fun _ registration hk => ?_
  have hgone : (w.known.erase key).lookup key = none := AList.lookup_erase ..
  exact absurd (hgone.symm.trans hk) (by simp)

theorem backed_fails (h : Attended m w) (i : Nat) (e : Env) (key : String) (hfails : e.failure ≠ none) :
    Attended m (w.release i key) ↔
      (e.failure ≠ none → w.cancelled = false → ∀ registration, w.known.lookup key = some registration →
        ¬ m.Own registration → key ∈ w.clients ∨ InProgress (w.release i key) key) := by
  rw [attended_release h i key]
  simp only [ne_eq, hfails, not_false_eq_true, forall_const]

def Cmd.Plain : Cmd → Prop
  | .contextErr | .discover _ | .watch _ | .nextEvent | .wait | .closeClient _ | .awaitDone _ | .client _ | .anyClient _
  | .register _ | .deregister _ | .endWatch _ => True
  | _ => False

theorem exec_world {i : Nat} {e : Env} {c : Cmd} {r : Ans c} {w' : World} (hx : exec m i e w c = some (r, w'))
    (x : Ans c × World) (hx' : exec m i e w c = some x) : x.2 = w' :=
  congrArg Prod.snd (Option.some.inj (hx'.symm.trans hx))

theorem exec_plain {i : Nat} {e : Env} {c : Cmd} {r : Ans c} {w' : World}
    (hx : exec m i e w c = some (r, w')) (hc : c.Plain) :
    ∃ registry finished discovered received, w' = { w with registry, finished, discovered, received } := by
  cases c with
  | upsert | dial | newClient | insert | startMonitor | takeMonitor | drop | remove | cancel | closeAll => exact hc.elim
  | contextErr | closeClient | client | anyClient | deregister =>
    cases hx
    exact ⟨_, _, _, _, rfl⟩
  | discover service =>
    simp only [exec] at hx
    split at hx <;> try split at hx
    all_goals cases hx
    all_goals exact ⟨_, _, _, _, rfl⟩
  | watch service =>
    simp only [exec] at hx
    split at hx <;> cases hx <;> exact ⟨_, _, _, _, rfl⟩
  | nextEvent =>
    simp only [exec, World.nextEvent] at hx
    split at hx <;> cases hx <;> exact ⟨_, _, _, _, rfl⟩
  | wait =>
    simp only [exec] at hx
    split at hx <;> try split at hx
    all_goals cases hx
    all_goals exact ⟨_, _, _, _, rfl⟩
  | awaitDone client =>
    simp only [exec] at hx
    split_ifs at hx <;> cases hx <;> exact ⟨_, _, _, _, rfl⟩
  | register item =>
    simp only [exec] at hx
    split at hx <;> cases hx <;> exact ⟨_, _, _, _, rfl⟩
  | endWatch watcher =>
    simp only [exec, World.endWatch] at hx
    split at hx <;> cases hx
    exact ⟨_, _, _, _, rfl⟩

theorem attended_exec (h : Attended m w) {i : Nat} {e : Env} {c : Cmd} {r : Ans c} {w' : World}
    (hb : Backed m i e w c) (hx : exec m i e w c = some (r, w')) : Attended m w' := by
  have hworld := exec_world hx
  cases c with
  | dial key address | newClient key =>
    simp only [exec] at hx
    split at hx
    · rename_i err hfails
      cases hx
      exact (backed_fails h i e key (by simp [hfails])).mpr hb
    · cases hx
      exact h
  | upsert key registration => exact hworld _ rfl ▸ attended_upsert h i key registration
  | insert key registration client => exact hworld _ rfl ▸ attended_insert h i key registration client
  | drop key client => exact hworld _ rfl ▸ attended_drop h i key client
  | remove key => exact hworld _ rfl ▸ attended_remove h i key
  | startMonitor monitor =>
    cases hx
    intro hopen key registration hknown hown
    exact (h hopen key registration hknown hown).imp id fun hbusy =>
      hbusy.mono (fun _ h => h) (fun _ h => h) (List.subset_append_left ..)
  | takeMonitor =>
    simp only [exec] at hx
    split at hx
    · cases hx
    · rename_i monitor monitors hmonitors
      cases hx
      intro hopen key registration hknown hown
      refine (h hopen key registration hknown hown).imp id fun hbusy => ?_
      rcases hbusy with hbusy | ⟨j, hj⟩ | ⟨monitor', hmem, hkey⟩
      · exact .inl hbusy
      · exact .inr (.inl ⟨j, List.mem_cons_of_mem _ hj⟩)
      · rw [hmonitors] at hmem
        rcases List.mem_cons.mp hmem with rfl | hmem
        · exact .inr (.inl ⟨i, hkey ▸ List.mem_cons_self ..⟩)
        · exact .inr (.inr ⟨monitor', hmem, hkey⟩)
  | cancel =>
    cases hx
    exact fun hopen => by cases hopen
  | closeAll =>
    simp only [exec] at hx
    split at hx
    · rename_i hcancelled
      cases hx
      exact fun hopen => absurd (hopen.symm.trans hcancelled) (by simp)
    · cases hx
  | _ =>
    obtain ⟨registry, finished, discovered, received, rfl⟩ := exec_plain hx trivial
    exact h

theorem backed_iff (i : Nat) (e : Env) (w : World) (c : Cmd) (h : Attended m w) :
    Backed m i e w c ↔ ∀ r w', exec m i e w c = some (r, w') → Attended m w' := by
  constructor
  · exact fun hb r w' hx => attended_exec h hb hx
  · intro hkeeps
    cases c with
    | dial key address =>
      intro hfails
      obtain ⟨err, herr⟩ := Option.ne_none_iff_exists'.mp hfails
      exact (backed_fails h i e key hfails).mp (hkeeps (.error err) _ (by simp [exec, herr])) hfails
    | newClient key =>
      intro hfails
      obtain ⟨err, herr⟩ := Option.ne_none_iff_exists'.mp hfails
      exact (backed_fails h i e key hfails).mp (hkeeps (.error err) _ (by simp [exec, herr])) hfails
    | _ => trivial

/-- In every state of a run, every known instance has a client or someone who is
about to connect to it, exactly if no dial and no stream set-up fails that was
the only attempt. -/
theorem known_attended_iff (m : Config) (registry : Registry) (calls : List Call) (schedule : List (Nat × Env)) :
    Pool.Along (exec m) (fun s a => Attended m (Pool.step (exec m) s a).world) (State.init m registry calls) schedule ↔
      Pool.Along (exec m) (Pool.Issues (Backed m)) (State.init m registry calls) schedule := by
  refine Pool.inv_run_iff backed_iff ?_ schedule
  intro _ key registration hknown
  cases hknown

def gateway : Config := ⟨"gateway", "gateway-1"⟩

def lobby1 : Registration := { service := "lobby", instanceID := "lobby-1", address := "10.0.0.7:9000" }

def oneLobby : Registry where
  kind := .static
  entries := AList.singleton "lobby/lobby-1" ⟨lobby1, 0⟩
  watches _ := none

theorem failed_dial_abandons :
    let s := Pool.run (exec gateway) (State.init gateway oneLobby [.watchService "lobby" 9])
      [(0, {}), (0, {}), (0, {}), (0, { failure := some (.driver "connection refused") }), (0, {})]
    s.world.cancelled = false ∧ s.world.known.lookup "lobby/lobby-1" = some lobby1 ∧ ¬ gateway.Own lobby1 ∧
      "lobby/lobby-1" ∉ s.world.clients ∧ ¬ InProgress s.world "lobby/lobby-1" ∧ ¬ Attended gateway s.world := by
  intro s
  have hopen : s.world.cancelled = false := by decide
  have hknown : s.world.known.lookup "lobby/lobby-1" = some lobby1 := by decide
  have hown : ¬ gateway.Own lobby1 := by decide
  have hclient : "lobby/lobby-1" ∉ s.world.clients := by decide
  have hidle : ¬ InProgress s.world "lobby/lobby-1" := by
    have hnone : s.world.connecting = [] ∧ s.world.monitoring = [] ∧ s.world.monitors = [] := by decide
    simp [InProgress, hnone.1, hnone.2.1, hnone.2.2]
  refine ⟨hopen, hknown, hown, hclient, hidle, fun h => ?_⟩
  exact (h hopen _ _ hknown hown).elim hclient hidle

end GameServer.Discovery
