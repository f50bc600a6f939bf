import GameServer.Streaming

/-!
# The peer of a service instance

`Server.Peer` is to return the stream of an instance that was registered last
among the open ones. The cleanup of a stream deletes the entry of its instance
whoever has registered since, so this is the case exactly as long as no stream
is cleaned up while another one of the same instance is open.
-/

namespace GameServer.Streaming

/-! ## Keys -/

theorem isDigit_or_of_mem_repr {n : Int} {x : Char} (h : x ∈ n.repr.toList) : x.isDigit = true ∨ x = '-' := by
  rw [Int.repr_eq_if] at h
  split at h
  · exact .inl (isDigit_of_mem_repr h)
  · rw [String.toList_append, List.mem_append] at h
    rcases h with h | h
    · exact .inr (by simpa using h)
    · exact .inl (isDigit_of_mem_repr h)

theorem intRepr_inj {m n : Int} (h : m.repr = n.repr) : m = n := by
  have hminus : ∀ (k : Nat) (s : String), k.repr ≠ "-" ++ s := by
    intro k s heq
    have hmem : '-' ∈ k.repr.toList := by simp [heq]
    exact absurd (isDigit_of_mem_repr hmem) (by decide)
  rw [Int.repr_eq_if, Int.repr_eq_if] at h
  split at h <;> split at h
  · have := natRepr_inj h
    omega
  · exact absurd h (hminus _ _)
  · exact absurd h.symm (hminus _ _)
  · have := natRepr_inj (String.append_right_inj _ |>.mp h)
    omega

namespace ServiceType

theorem slash_not_mem_string (t : ServiceType) : '/' ∉ t.string.toList := by
  unfold string
  split_ifs
  · decide
  · decide
  · decide
  · decide
  · decide
  · intro h
    rcases isDigit_or_of_mem_repr h with h | h <;> exact absurd h (by decide)

def names : List (ServiceType × String) :=
  [(unspecified, "SERVICE_TYPE_UNSPECIFIED"), (gateway, "SERVICE_TYPE_GATEWAY"), (lobby, "SERVICE_TYPE_LOBBY"),
    (usercenter, "SERVICE_TYPE_USERCENTER"), (battle, "SERVICE_TYPE_BATTLE")]

theorem string_cases (t : ServiceType) : (t, t.string) ∈ names ∨ t.string = t.toInt.repr := by
  unfold string names
  split_ifs <;> simp_all

theorem string_injective : Function.Injective string := by
  have hnames : ∀ x ∈ names, ∀ y ∈ names, x.2 = y.2 → x.1 = y.1 := by decide
  have hname : ∀ x ∈ names, 'S' ∈ x.2.toList := by decide
  have hne : ∀ (n : Int) (t : ServiceType), (t, t.string) ∈ names → t.string ≠ n.repr := by
    intro n t ht heq
    rcases isDigit_or_of_mem_repr (heq ▸ hname _ ht) with h | h <;> exact absurd h (by decide)
  intro t u h
  rcases string_cases t with ht | ht <;> rcases string_cases u with hu | hu
  · exact hnames _ ht _ hu h
  · exact absurd (h.trans hu) (hne _ t ht)
  · exact absurd (h.symm.trans ht) (hne _ u hu)
  · exact Int32.toInt_inj.mp (intRepr_inj (ht.symm.trans (h.trans hu)))

end ServiceType

theorem peerKey_inj {t t' : ServiceType} {id id' : String} (h : peerKey t id = peerKey t' id') : t = t' ∧ id = id' := by
  have hlist := congrArg String.toList h
  simp only [peerKey, String.toList_append, List.append_assoc] at hlist
  obtain ⟨ht, hid⟩ := append_sep_inj t.slash_not_mem_string t'.slash_not_mem_string hlist
  exact ⟨ServiceType.string_injective (String.toList_inj.mp ht), String.toList_inj.mp hid⟩

/-! ## Registered streams -/

def Peer.Is (serviceType : ServiceType) (instanceID : String) (p : Peer) : Prop :=
  p.serviceType = serviceType ∧ p.instanceID = instanceID

instance (serviceType : ServiceType) (instanceID : String) : DecidablePred (Peer.Is serviceType instanceID) :=
  fun _ => inferInstanceAs (Decidable (_ ∧ _))

def Current (w : World) : Prop :=
  ∀ serviceType instanceID p, w.opened.find? (fun p => Peer.Is serviceType instanceID p) = some p →
    w.peers.lookup (peerKey serviceType instanceID) = some p

def Unshared (i : Nat) (_ : Env) (w : World) : Cmd → Prop
  | .removePeer key => ∀ p ∈ w.opened, p.key = key → p.connection = i
  | _ => True

theorem Peer.Is.key {serviceType : ServiceType} {instanceID : String} {p : Peer} (h : p.Is serviceType instanceID) :
    p.key = peerKey serviceType instanceID := by
  rw [Peer.key, h.1, h.2]

theorem current_addPeer {w : World} (h : Current w) (peer : Peer) : Current (w.addPeer peer) := by
  intro serviceType instanceID p hp
  by_cases his : peer.Is serviceType instanceID
  · rw [World.addPeer, List.find?_cons_of_pos (by simpa using his)] at hp
    rw [← Option.some.inj hp, ← his.key]
    exact AList.lookup_insert _
  · rw [World.addPeer, List.find?_cons_of_neg (by simpa using his)] at hp
    have hne : peerKey serviceType instanceID ≠ peer.key := by
      intro heq
      obtain ⟨htype, hid⟩ := peerKey_inj heq
      exact his ⟨htype.symm, hid.symm⟩
    exact (AList.lookup_insert_ne hne).trans (h serviceType instanceID p hp)

theorem current_removePeer {w : World} (h : Current w) (i : Nat) (key : String) :
    Current (w.removePeer i key) ↔ ∀ p ∈ w.opened, p.key = key → p.connection = i := by
  constructor
  · intro hcurrent p hp hkey
    by_contra hne
    have hmem : p ∈ (w.removePeer i key).opened := List.mem_filter.mpr ⟨hp, by simp [hne]⟩
    -- The instance of `p` still has an open stream, and no entry.
    have hsome : ((w.removePeer i key).opened.find? fun q => q.Is p.serviceType p.instanceID).isSome :=
      List.find?_isSome.mpr ⟨p, hmem, by simp [Peer.Is]⟩
    obtain ⟨q, hq⟩ := Option.isSome_iff_exists.mp hsome
    have hlookup := hcurrent p.serviceType p.instanceID q hq
    have hgone : (w.peers.erase key).lookup key = none := AList.lookup_erase ..
    rw [← hkey] at hgone
    rw [World.removePeer, ← hkey] at hlookup
    exact absurd (hlookup.symm.trans hgone) (by simp)
  · intro halone serviceType instanceID p hp
    obtain ⟨hmem, hleft⟩ := List.mem_filter.mp (List.mem_of_find?_eq_some hp)
    have hkey : p.key = peerKey serviceType instanceID := Peer.Is.key (by simpa using List.find?_some hp)
    have hne : peerKey serviceType instanceID ≠ key := by
      rintro rfl
      simp [hkey, halone p hmem hkey] at hleft
    -- Only streams of another instance have gone.
    have hsame : (w.removePeer i key).opened.find? (fun q => q.Is serviceType instanceID) =
        w.opened.find? fun q => q.Is serviceType instanceID := by
      rw [World.removePeer, List.find?_filter]
      congr 1
      funext q
      by_cases hq : q.Is serviceType instanceID
      · simp [hq, hq.key, hne]
      · simp [hq]
    rw [hsame] at hp
    exact (AList.lookup_erase_ne hne).trans (h serviceType instanceID p hp)

theorem Current.congr {w w' : World} (h : Current w) (hpeers : w'.peers = w.peers) (hopened : w'.opened = w.opened) :
    Current w' := by
  unfold Current
  rw [hpeers, hopened]
  exact h

theorem exec_peers {i : Nat} {e : Env} {w w' : World} {c : Cmd} {r : Ans c} (hx : exec i e w c = some (r, w')) :
    (∃ peer, c = .addPeer peer ∧ w' = w.addPeer peer) ∨ (∃ key, c = .removePeer key ∧ w' = w.removePeer i key) ∨
      w'.peers = w.peers ∧ w'.opened = w.opened := by
  cases c with
  | addPeer peer =>
    cases hx
    exact .inl ⟨peer, rfl, rfl⟩
  | removePeer key =>
    cases hx
    exact .inr (.inl ⟨key, rfl, rfl⟩)
  | streamSend connection envelope =>
    simp only [exec] at hx
    split at hx <;> cases hx <;> exact .inr (.inr ⟨rfl, rfl⟩)
  | clientSend envelope =>
    simp only [exec] at hx
    split at hx <;> cases hx <;> exact .inr (.inr ⟨rfl, rfl⟩)
  | putResponse response envelope =>
    simp only [exec] at hx
    split at hx <;> cases hx
    exact .inr (.inr ⟨rfl, rfl⟩)
  | await response =>
    simp only [exec, World.await] at hx
    split at hx <;> try split at hx
    all_goals cases hx
    all_goals exact .inr (.inr ⟨rfl, rfl⟩)
  | _ =>
    cases hx
    exact .inr (.inr ⟨rfl, rfl⟩)

theorem unshared_iff (i : Nat) (e : Env) (w : World) (c : Cmd) (h : Current w) :
    Unshared i e w c ↔ ∀ r w', exec i e w c = some (r, w') → Current w' := by
  constructor
  · intro hu r w' hx
    rcases exec_peers hx with ⟨peer, rfl, rfl⟩ | ⟨key, rfl, rfl⟩ | ⟨hpeers, hopened⟩
    · exact current_addPeer h peer
    · exact (current_removePeer h i key).mpr hu
    · exact h.congr hpeers hopened
  · intro hkeeps
    cases c with
    | removePeer key => exact (current_removePeer h i key).mp (hkeeps () _ rfl)
    | _ => trivial

/-- `Peer` returns the stream registered last in every state of a run, exactly
if no stream is cleaned up while another one of the same instance is open. -/
theorem peers_current_iff (c : Config) (calls : List Call) (schedule : List (Nat × Env)) :
    Pool.Along exec (fun s a => Current (Pool.step exec s a).world) (State.init c calls) schedule ↔
      Pool.Along exec (Pool.Issues Unshared) (State.init c calls) schedule := by
  refine Pool.inv_run_iff unshared_iff ?_ schedule
  intro serviceType instanceID p hp
  cases hp

def reconnecting : Config where
  marshalHello _ := .ok []
  unmarshalHello _ := some ⟨.lobby, "lobby-1"⟩
  handlers := ∅
  service := .gateway
  instanceID := "gateway-1"
  onEvent := false

theorem old_stream_removes_new :
    let hello : Env := { received := .ok { kind := .hello } }
    let s := Pool.run exec (State.init reconnecting [.connect 1, .connect 1])
      [(0, hello), (0, {}), (0, {}), (1, hello), (1, {}), (1, {}), (0, {}), (0, {}), (0, {})]
    (s.world.opened.find? fun p => p.Is .lobby "lobby-1") = some ⟨.lobby, "lobby-1", 1⟩ ∧
      s.world.peers.lookup (peerKey .lobby "lobby-1") = none ∧ ¬ Current s.world := by
  intro hello s
  have hopen : (s.world.opened.find? fun p => p.Is .lobby "lobby-1") = some ⟨.lobby, "lobby-1", 1⟩ := by decide
  have hpeer : s.world.peers.lookup (peerKey .lobby "lobby-1") = none := by decide
  exact ⟨hopen, hpeer, fun h => absurd ((h _ _ _ hopen).symm.trans hpeer) (by simp)⟩

end GameServer.Streaming
