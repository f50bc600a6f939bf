import GameServer.BattleRestore

/-!
# A restored client has the manager's room

One client restores its battle again and again while rooms are created and
mutated in between. Its room agrees with the manager's after every restore if and
only if no restore finds the player in another room at a version that the
client's version leads up to.
-/

namespace GameServer.Battle

/-! ## The delta buffer -/

def firstVersion (k : UInt64) : List RoomDelta → UInt64
  | [] => k
  | d :: _ => d.fromStateVersion

def Contiguous (k : UInt64) : List RoomDelta → Prop
  | [] => True
  | d :: ds => d.fromStateVersion < d.toStateVersion ∧ d.toStateVersion = firstVersion k ds ∧ Contiguous k ds

section
variable {k : UInt64}

theorem contiguous_drop : ∀ (n : Nat) {ds : List RoomDelta}, Contiguous k ds → Contiguous k (ds.drop n)
  | 0, _, h => h
  | _ + 1, [], _ => trivial
  | n + 1, _ :: _, h => contiguous_drop n h.2.2

theorem contiguous_append {d : RoomDelta} (hd : d.fromStateVersion = k) (hlt : k < d.toStateVersion) :
    ∀ {ds : List RoomDelta}, Contiguous k ds → Contiguous d.toStateVersion (ds ++ [d])
  | [], _ => ⟨hd ▸ hlt, rfl, trivial⟩
  | _ :: ds, ⟨h₁, h₂, h₃⟩ => by
    refine ⟨h₁, h₂.trans ?_, contiguous_append hd hlt h₃⟩
    cases ds with
    | nil => exact hd.symm
    | cons _ _ => rfl

theorem firstVersion_le : ∀ {ds : List RoomDelta}, Contiguous k ds → firstVersion k ds ≤ k
  | [], _ => UInt64.le_refl _
  | _ :: _, ⟨h₁, h₂, h₃⟩ => UInt64.le_trans (UInt64.le_of_lt h₁) (h₂ ▸ firstVersion_le h₃)

theorem toStateVersion_le : ∀ {ds : List RoomDelta}, Contiguous k ds → ∀ d ∈ ds,
    d.fromStateVersion < d.toStateVersion ∧ d.toStateVersion ≤ k
  | [], _, d, hd => nomatch hd
  | x :: ds, ⟨h₁, h₂, h₃⟩, d, hd => by
    rcases List.mem_cons.mp hd with rfl | hd
    · exact ⟨h₁, h₂ ▸ firstVersion_le h₃⟩
    · exact toStateVersion_le h₃ d hd

theorem addAll_of_forall_ne {c : Composition} : ∀ {ds : List RoomDelta},
    (∀ d ∈ ds, d.fromStateVersion ≠ c.nextVersion) → Composition.addAll k ds c = c
  | [], _ => rfl
  | d :: ds, h => by
    rw [List.forall_mem_cons] at h
    unfold Composition.addAll
    rw [if_pos (.inl h.1)]
    exact addAll_of_forall_ne h.2

theorem addAll_of_mem : ∀ {ds : List RoomDelta} {c : Composition}, Contiguous k ds →
    (∃ d ∈ ds, d.fromStateVersion = c.nextVersion) → (Composition.addAll k ds c).nextVersion = k
  | [], _, _, ⟨_, hd, _⟩ => nomatch hd
  | d :: ds, c, h, ⟨x, hx, hxc⟩ => by
    have hle := (toStateVersion_le h d (List.mem_cons_self ..)).2
    unfold Composition.addAll
    by_cases hd : d.fromStateVersion = c.nextVersion
    · have hcond : ¬ (d.fromStateVersion ≠ c.nextVersion ∨ d.toStateVersion > k) := by simp [hd, hle]
      rw [if_neg hcond]
      split
      · assumption
      · rename_i hnext
        refine addAll_of_mem h.2.2 ?_
        -- the next delta starts where this one ended
        cases ds with
        | nil => exact absurd h.2.1 hnext
        | cons y ds => exact ⟨y, List.mem_cons_self .., h.2.1.symm⟩
    · rw [if_pos (.inl hd)]
      refine addAll_of_mem h.2.2 ⟨x, (List.mem_cons.mp hx).resolve_left fun heq => hd (heq ▸ hxc), hxc⟩

theorem composeDeltas_eq_none {e : Env} {roomID v : UInt64} {ds : List RoomDelta} (h : Contiguous k ds) (hv : v < k) :
    composeDeltas e roomID ds v k = none ↔ ∀ d ∈ ds, d.fromStateVersion ≠ v := by
  unfold composeDeltas
  by_cases hds : ds = []
  · simp [hds]
  rw [if_neg (by simp [hds, hv])]
  by_cases hmem : ∀ d ∈ ds, d.fromStateVersion ≠ v
  · have := addAll_of_forall_ne (k := k) (c := { nextVersion := v }) hmem
    simp only [this, iff_true_right hmem]
    simp [UInt64.ne_of_lt hv]
  · have := addAll_of_mem (c := { nextVersion := v }) h (by push Not at hmem; exact hmem)
    simp [this, hmem]

end

/-! ## What a restore does -/

def World.located (w : World) (es : Nat → Env) (playerID : String) : Except GoErr Room :=
  if playerID = "" then .error errPlayerNotInRoom
  else
    match w.scan (es 0) playerID with
    | some room => .ok room
    | none => w.findByPlayerID (es 1) playerID

def answered (e : Env) (deltas : List RoomDelta) (v : UInt64) (room : Room) : RestoreResult :=
  if v = room.stateVersion then { room, mode := .noop, baseStateVersion := v }
  else if v < room.stateVersion then
    match composeDeltas e room.id deltas v room.stateVersion with
    | some delta => { room, mode := .delta, baseStateVersion := v, delta := some delta }
    | none => { room, mode := .full }
  else { room, mode := .full }

@[simp] theorem answered_room (e : Env) (deltas : List RoomDelta) (v : UInt64) (room : Room) :
    (answered e deltas v room).room = room := by
  unfold answered
  split
  · rfl
  · split
    · split <;> rfl
    · rfl

theorem alone_answerSince (v : UInt64) (room : Room) (es : Nat → Env) (w : World) :
    (answerSince v true room).alone answerOf es w =
      (.ok (.restored (answered (es 0) (w.buffer room.id) v room)), w) := by
  unfold answerSince answered
  by_cases hv : v = room.stateVersion
  · simp [hv, Prog.alone]
  · by_cases hlt : v < room.stateVersion
    · simp only [hv, hlt, if_false, if_true, and_self, perform, Prog.perform_bind, Prog.alone, answerOf, World.answer,
        World.buffer]
      cases composeDeltas (es 0) room.id ((w.deltas.lookup room.id).getD []) v room.stateVersion <;> rfl
    · simp [hv, hlt, Prog.alone]

theorem alone_restore (playerID : String) (v : UInt64) (es : Nat → Env) (w : World) :
    (∃ err, w.located es playerID = .error err ∧
      (restoreByPlayerIDSince playerID v true).alone answerOf es w = (.error err, w)) ∨
    ∃ room e w', w.located es playerID = .ok room ∧
      (restoreByPlayerIDSince playerID v true).alone answerOf es w =
        (.ok (.restored (answered e (w.buffer room.id) v room)), w') ∧
      (w.scan (es 0) playerID = some room ∧ w' = w ∨
        w.scan (es 0) playerID = none ∧ w.findByPlayerID (es 1) playerID = .ok room ∧
          w' = { w with rooms := w.rooms.insert room.id room }) := by
  unfold World.located
  by_cases hp : playerID = ""
  · simp [hp, restoreByPlayerIDSince, restoreByPlayerID, Prog.alone]
  rw [if_neg hp, restoreByPlayerIDSince_eq hp]
  simp only [Prog.alone, answerOf, World.answer]
  cases hscan : w.scan (es 0) playerID with
  | some room => exact .inr ⟨room, _, w, rfl, alone_answerSince v room _ w, .inl ⟨rfl, rfl⟩⟩
  | none =>
    simp only [afterScan, Prog.alone, answerOf, World.answer, Nat.zero_add]
    cases hfind : w.findByPlayerID (es 1) playerID with
    | error err => exact .inl ⟨err, rfl, rfl⟩
    | ok room =>
      refine .inr ⟨room, es 3, _, rfl, ?_, .inr ⟨trivial, rfl, rfl⟩⟩
      simp only [afterFind, Prog.alone, answerOf, World.answer]
      exact alone_answerSince v room _ _

/-! ## Memory and repository -/

structure Synced (w : World) : Prop where
  listed : ∀ id r, w.rooms.lookup id = some r →
    ∃ d ∈ w.snapshots, d.roomID = id ∧ ∀ s ∈ d.players, s.playerID ∈ r.players
  contiguous : ∀ id r, w.rooms.lookup id = some r → Contiguous r.stateVersion (w.buffer id)
  positive : ∀ id r, w.rooms.lookup id = some r → r.stateVersion ≠ 0
  starts : ∀ id, ∀ d ∈ w.buffer id, d.fromStateVersion ≠ 0

section
variable {V : World → Prop} {w w' : World} {e : Env}

theorem synced_congr (h : Synced w) (hr : ∀ id, w'.rooms.lookup id = w.rooms.lookup id) (hd : w'.deltas = w.deltas)
    (hs : w'.snapshots = w.snapshots) : Synced w' := by
  have hbuf : ∀ id, w'.buffer id = w.buffer id := fun id => by simp only [World.buffer, hd]
  refine ⟨?_, ?_, ?_, ?_⟩
  · simp only [hr, hs]
    exact h.listed
  · simp only [hr, hbuf]
    exact h.contiguous
  · simp only [hr]
    exact h.positive
  · simp only [hbuf]
    exact h.starts

theorem synced_create {room : Room} (h : Synced w) (hk : room.Keyed) (hc : w.create e room = .ok w') : Synced w' := by
  obtain ⟨-, hne, rfl⟩ := create_ok hc
  have hd := snapshotOf_storedDocument e hk
  have hbuf : ∀ id, id ≠ room.id →
      World.buffer ⟨w.rooms.insert room.id room, w.deltas.insert room.id [], w.snapshots.upsert (storedDocument e room)⟩ id =
        w.buffer id := by
    intro id hid
    simp [World.buffer, AList.lookup_insert_ne hid]
  refine ⟨stored_upsert h.listed hd.roomID hd.lists, fun id r hr => ?_, fun id r hr => ?_, fun id x hx => ?_⟩
  · rcases lookup_insert_cases hr with ⟨rfl, rfl⟩ | ⟨hid, hr⟩
    · simp [World.buffer, Contiguous]
    · rw [hbuf id hid]
      exact h.contiguous id r hr
  · rcases lookup_insert_cases hr with ⟨rfl, rfl⟩ | ⟨hid, hr⟩
    · exact hne
    · exact h.positive id r hr
  · by_cases hid : id = room.id
    · subst hid
      simp [World.buffer] at hx
    · rw [hbuf id hid] at hx
      exact h.starts id x hx

theorem synced_mutate {roomID : UInt64} {callback : Callback} {r : Except GoErr Unit} (ht : Tracked V w) (h : Synced w)
    (hf : KeepsVersion callback) (hm : w.mutate e roomID callback = (r, w')) : Synced w' := by
  rcases mutate_cases hf (fun room hr => (ht.own _ _ hr).2) hm with
    ⟨hr, hd, hs⟩ | ⟨previous, room, d, hp, hk, hid, hlt, hd, rfl⟩
  · exact synced_congr h hr hd hs
  · obtain rfl : room.id = roomID := hid.trans (ht.own _ _ hp).1
    refine ⟨stored_upsert h.listed hd.roomID hd.lists, fun id r hr => ?_, fun id r hr => ?_, fun id x hx => ?_⟩
    · rcases lookup_insert_cases hr with ⟨rfl, rfl⟩ | ⟨hid', hr⟩
      · have happend := contiguous_append (d := roomDelta e previous r) rfl hlt (h.contiguous _ _ hp)
        simp only [World.recordDelta, World.buffer, AList.lookup_insert, Option.getD_some]
        generalize _ - deltaSize = n
        exact contiguous_drop n happend
      · simp only [World.recordDelta, World.buffer, AList.lookup_insert_ne hid']
        exact h.contiguous id r hr
    · rcases lookup_insert_cases hr with ⟨rfl, rfl⟩ | ⟨-, hr⟩
      · exact fun hzero => absurd hlt (hzero ▸ UInt64.not_lt_zero)
      · exact h.positive id r hr
    · rcases mem_buffer_recordDelta hx with hx | ⟨rfl, rfl⟩
      · exact h.starts id x hx
      · exact h.positive _ _ hp

theorem synced_exec {i : Nat} {c : Cmd} {r : Ans c} (ht : Tracked V w) (h : Synced w) (hc : Tame c)
    (hx : exec i e w c = some (r, w')) : Synced w' := by
  have hx := Option.some.inj hx
  cases c with
  | create room =>
    cases hcr : w.create e room with
    | error err =>
      simp only [World.answer, hcr] at hx
      cases hx
      exact h
    | ok w₁ =>
      simp only [World.answer, hcr] at hx
      cases hx
      exact synced_create h hc hcr
  | mutate roomID callback => exact synced_mutate ht h hc hx
  | _ => exact hc.elim

theorem absent_of_find {playerID : String} {room : Room} (h : Synced w) {e' : Env} (hscan : w.scan e playerID = none)
    (hfind : w.findByPlayerID e' playerID = .ok room) :
    w.rooms.lookup room.id = none ∧ ∃ d ∈ w.snapshots, roomSnapshotDomainFromDocument d = .ok room := by
  unfold World.findByPlayerID at hfind
  split at hfind
  · cases hfind
  split at hfind
  · cases hfind
  simp only at hfind
  split at hfind
  · cases hfind
  · rename_i d hd
    have hmem := List.mem_filter.mp (List.argmax_mem hd)
    have hdoc : d ∈ w.snapshots := mem_shuffle.mp hmem.1
    refine ⟨?_, d, hdoc, hfind⟩
    cases hr : w.rooms.lookup room.id with
    | none => rfl
    | some r =>
      have hid : room.id = d.roomID := by rw [decode_ok hfind]
      obtain ⟨d', hd', hid', hlists⟩ := h.listed _ r hr
      obtain rfl : d = d' := Coll.eq_of_clash hdoc hd' (by simp [roomSnapshotIndexes, hid', hid])
      obtain ⟨s, hs, hsp⟩ := List.any_eq_true.mp hmem.2
      have hplayer : playerID ∈ r.players := by
        rw [← eq_of_beq hsp]
        exact hlists s hs
      -- the player is in a room in memory, where the scan would have found it
      have hentry : (⟨room.id, r⟩ : Sigma fun _ : UInt64 => Room) ∈ shuffle (e.order .rooms) w.rooms.entries :=
        mem_shuffle.mpr (AList.mem_lookup_iff.mp hr)
      rw [World.scan, Option.map_eq_none_iff, List.find?_eq_none] at hscan
      exact absurd (by simpa using hplayer) (hscan _ hentry)

theorem buffer_of_absent (ht : Tracked V w) {id : UInt64} (hr : w.rooms.lookup id = none) : w.buffer id = [] := by
  cases hb : w.buffer id with
  | nil => rfl
  | cons d ds =>
    obtain ⟨a, -, ha, -⟩ := ht.leads id d (by simp [hb])
    obtain ⟨c, hc, -⟩ := ht.known id a ha
    rw [hr] at hc
    cases hc

theorem tracked_load {room : Room} {d : RoomSnapshotDocument} (ht : Tracked V w) (hr : w.rooms.lookup room.id = none)
    (hd : d ∈ w.snapshots) (hdec : roomSnapshotDomainFromDocument d = .ok room) :
    Tracked (fun x => V x ∨ x = { w with rooms := w.rooms.insert room.id room })
      { w with rooms := w.rooms.insert room.id room } := by
  refine tracked_put ht (keyed_of_decode hdec) (fun r hhad => ?_) rfl (fun id r hr' => ?_) fun id x hx => .inl hx
  · obtain ⟨c, hc, -⟩ := ht.known _ _ hhad
    rw [hr] at hc
    cases hc
  · rcases lookup_insert_cases hr' with ⟨rfl, rfl⟩ | ⟨-, hr'⟩
    · refine ⟨d, hd, by rw [decode_ok hdec], fun r' hr' => ?_⟩
      rw [Except.ok.inj (hr'.symm.trans hdec)]
      exact .rfl
    · exact ht.stored id r hr'

theorem synced_load {room : Room} {d : RoomSnapshotDocument} (ht : Tracked V w) (h : Synced w)
    (hr : w.rooms.lookup room.id = none) (hd : d ∈ w.snapshots) (hdec : roomSnapshotDomainFromDocument d = .ok room) :
    Synced { w with rooms := w.rooms.insert room.id room } := by
  have hroom := decode_ok hdec
  refine ⟨fun id r hr' => ?_, fun id r hr' => ?_, fun id r hr' => ?_, h.starts⟩
  · rcases lookup_insert_cases hr' with ⟨rfl, rfl⟩ | ⟨-, hr'⟩
    · refine ⟨d, hd, by rw [hroom], fun s hs => ?_⟩
      rw [hroom]
      exact key_mem_insertAll (.inl hs)
    · exact h.listed id r hr'
  · rcases lookup_insert_cases hr' with ⟨rfl, rfl⟩ | ⟨-, hr'⟩
    · show Contiguous _ (w.buffer _)
      rw [buffer_of_absent ht hr]
      trivial
    · exact h.contiguous id r hr'
  · rcases lookup_insert_cases hr' with ⟨rfl, rfl⟩ | ⟨-, hr'⟩
    · obtain ⟨r₁, -, hdec⟩ := bind_eq_ok hdec
      obtain ⟨_, hv, hdec⟩ := bind_eq_ok hdec
      cases hdec
      exact stateVersion_ne_zero hv
    · exact h.positive id r hr'

theorem tracked_restore {playerID : String} {es : Nat → Env} {room : Room} (ht : Tracked V w) (h : Synced w)
    (hw : w.scan (es 0) playerID = some room ∧ w' = w ∨ w.scan (es 0) playerID = none ∧
      w.findByPlayerID (es 1) playerID = .ok room ∧ w' = { w with rooms := w.rooms.insert room.id room }) :
    Tracked (fun x => V x ∨ x = w') w' ∧ Synced w' ∧ w'.rooms.lookup room.id = some room ∧
      w'.buffer room.id = w.buffer room.id := by
  rcases hw with ⟨hscan, rfl⟩ | ⟨hscan, hfind, rfl⟩
  · obtain ⟨⟨id, r⟩, hf, rfl⟩ := Option.map_eq_some_iff.mp hscan
    have hr : w'.rooms.lookup id = some r := AList.mem_lookup_iff.mpr (mem_shuffle.mp (List.mem_of_find?_eq_some hf))
    have hid : r.id = id := (ht.own id r hr).1
    exact ⟨tracked_congr ht (fun _ => rfl) rfl rfl, h, hid ▸ hr, rfl⟩
  · obtain ⟨habsent, d, hd, hdec⟩ := absent_of_find h hscan hfind
    exact ⟨tracked_load ht habsent hd hdec, synced_load ht h habsent hd hdec, AList.lookup_insert _, rfl⟩

end

/-! ## The client -/

theorem roomOfSnapshot_agrees {room : Room} (hk : room.Keyed) :
    (roomOfSnapshot (marshalRoomSnapshot room)).Agrees room := by
  refine ⟨rfl, rfl, rfl, rfl, hk.lookup_insertAll fun s => ?_⟩
  simp only [marshalRoomSnapshot, List.mem_filterMap, List.mem_mergeSort]
  constructor
  · rintro ⟨p, -, hp⟩
    rwa [hk p s hp]
  · intro hs
    exact ⟨s.playerID, AList.mem_keys.mp (AList.lookup_isSome.mp (by simp [hs])), hs⟩

def Client.after (c : Client) (e : Env) (deltas : List RoomDelta) (room : Room) : Option Room :=
  if c.version = room.stateVersion then c.room
  else if c.version < room.stateVersion then
    match composeDeltas e room.id deltas c.version room.stateVersion with
    | some delta => c.room.map (·.removeThenUpsert delta)
    | none => some (roomOfSnapshot (marshalRoomSnapshot room))
  else some (roomOfSnapshot (marshalRoomSnapshot room))

theorem respond_answered (playerID : String) (c : Client) (e : Env) (deltas : List RoomDelta) (room : Room) :
    ∃ response, respond playerID (.ok (.restored (answered e deltas c.version room))) = .ok response ∧
      c.receive response = ⟨c.after e deltas room, room.stateVersion⟩ := by
  unfold answered Client.after
  by_cases hv : c.version = room.stateVersion
  · simp only [hv, if_true]
    exact ⟨_, rfl, rfl⟩
  · by_cases hlt : c.version < room.stateVersion
    · simp only [hv, hlt, if_false, if_true]
      cases composeDeltas e room.id deltas c.version room.stateVersion with
      | some delta => exact ⟨_, rfl, rfl⟩
      | none => exact ⟨_, rfl, rfl⟩
    · simp only [hv, hlt, if_false]
      exact ⟨_, rfl, rfl⟩

section
variable {playerID : String} {s : Session} {es : Nat → Env}

theorem step_of_not_located {err : GoErr} (h : s.world.located es playerID = .error err) :
    s.restored playerID es = .error err ∧ ((s.step playerID (.restore es) = s) ∨
      (s.step playerID (.restore es)).world = s.world ∧ (s.step playerID (.restore es)).client.version = 0) := by
  have halone : (restoreByPlayerIDSince playerID s.client.version true).alone answerOf es s.world = (.error err, s.world) := by
    rcases alone_restore playerID s.client.version es s.world with ⟨err', h', halone⟩ | ⟨room, _, _, h', -⟩
    · cases h.symm.trans h'
      exact halone
    · cases h.symm.trans h'
  refine ⟨by rw [Session.restored, halone], ?_⟩
  by_cases hp : playerID = ""
  · simp [Session.step, restorePlayerState, hp, Prog.alone]
  · simp only [Session.step, restorePlayerState, if_neg hp, Prog.pure_eq, Prog.alone_bind_ret, halone]
    simp only [respond]
    split
    · rename_i heq
      split at heq
      · cases heq
      · exact .inl rfl
    · rename_i heq
      split at heq
      · cases heq
        exact .inr ⟨rfl, rfl⟩
      · cases heq

theorem step_of_located {room : Room} (h : s.world.located es playerID = .ok room) :
    ∃ e w', s.restored playerID es = .ok (.restored (answered e (s.world.buffer room.id) s.client.version room)) ∧
      s.step playerID (.restore es) = ⟨w', s.client.after e (s.world.buffer room.id) room, room.stateVersion⟩ ∧
      (s.world.scan (es 0) playerID = some room ∧ w' = s.world ∨
        s.world.scan (es 0) playerID = none ∧ s.world.findByPlayerID (es 1) playerID = .ok room ∧
          w' = { s.world with rooms := s.world.rooms.insert room.id room }) := by
  rcases alone_restore playerID s.client.version es s.world with ⟨err, h', -⟩ | ⟨room', e, w', h', halone, hw⟩
  · cases h.symm.trans h'
  · cases h.symm.trans h'
    have hp : playerID ≠ "" := by
      rintro rfl
      simp [World.located] at h
    obtain ⟨response, hresponse, hreceive⟩ := respond_answered playerID s.client e (s.world.buffer room.id) room
    refine ⟨e, w', by rw [Session.restored, halone], ?_, hw⟩
    simp only [Session.step, restorePlayerState, if_neg hp, Prog.pure_eq, Prog.alone_bind_ret, halone, hresponse, hreceive]

end

/-! ## Every history -/

def Held (V : World → Prop) (c : Client) : Prop :=
  c.version = 0 ∨ ∃ room r, c.room = some room ∧ room.stateVersion = c.version ∧ Had V room.id r ∧ room.Agrees r

def Session.Inv (s : Session) : Prop := ∃ V, Tracked V s.world ∧ Synced s.world ∧ Held V s.client

def Event.Tame : Event → Prop
  | .create room _ => room.Keyed
  | .mutate _ callback _ => KeepsVersion callback
  | .restore _ => True

/-- A restore that finds the player in another room than the client's: that room
is not at the client's version, and its deltas do not start there. -/
def Session.AtHome (playerID : String) (s : Session) : Event → Prop
  | .create _ _ => True
  | .mutate _ _ _ => True
  | .restore es => ∀ room, s.world.located es playerID = .ok room → s.client.room.map (·.id) = some room.id ∨
    s.client.version ≠ room.stateVersion ∧ ∀ d ∈ s.world.buffer room.id, d.fromStateVersion ≠ s.client.version

section
variable {playerID : String} {s : Session}

theorem Held.mono {V V' : World → Prop} {c : Client} (h : Held V c) (hV : ∀ w, V w → V' w) : Held V' c := by
  rcases h with h | ⟨room, r, hroom, hv, ⟨w, hw, hr⟩, ha⟩
  · exact .inl h
  · exact .inr ⟨room, r, hroom, hv, ⟨w, hV w hw, hr⟩, ha⟩

theorem after_agrees {V : World → Prop} {w : World} {c : Client} {e : Env} {room held : Room} (ht : Tracked V w)
    (hs : Synced w) (hc : Held V c) (hroom : w.rooms.lookup room.id = some room) (hheld : c.room = some held)
    (hid : held.id = room.id) : ∃ r, c.after e (w.buffer room.id) room = some r ∧ r.Agrees room := by
  have hfull := roomOfSnapshot_agrees (ht.own _ _ hroom).2
  have hhad : Had V room.id room := ⟨w, ht.now, hroom⟩
  unfold Client.after
  by_cases hzero : c.version = 0
  · -- no delta starts from version 0
    have hne : c.version ≠ room.stateVersion := fun h => hs.positive _ _ hroom (h.symm.trans hzero)
    rw [if_neg hne]
    split
    · rename_i hlt
      rw [(composeDeltas_eq_none (hs.contiguous _ _ hroom) hlt).mpr fun d hd => hzero ▸ hs.starts _ d hd]
      exact ⟨_, rfl, hfull⟩
    · exact ⟨_, rfl, hfull⟩
  · obtain ⟨held', r, hheld', hv, hhad', ha⟩ := hc.resolve_left hzero
    obtain rfl := Option.some.inj (hheld.symm.trans hheld')
    rw [hid] at hhad'
    split
    · rename_i heq
      refine ⟨held, hheld, ha.trans (ht.unique _ r room hhad' hhad ?_)⟩
      rw [← ha.stateVersion, hv, heq]
    · split
      · cases hd : composeDeltas e room.id (w.buffer room.id) c.version room.stateVersion with
        | none => exact ⟨_, rfl, hfull⟩
        | some d =>
          have hchained : Chained (Had V room.id) room.stateVersion (w.buffer room.id) :=
            ⟨fun d hd _ => ht.leads _ d hd, fun a b ha hb _ => ht.unique _ a b ha hb⟩
          rw [← hv, ha.stateVersion] at hd
          obtain ⟨b, hb, hbv, hl⟩ := composeDeltas_leads hchained hhad' hd
          have hsame := ht.unique _ b room hb hhad hbv
          have hrebuilds := (hl.congr_left ha.symm).rebuilds (hid.trans (ht.ids _ b hb).symm)
          exact ⟨_, by simp only [hheld, Option.map_some], hrebuilds.1.trans hsame⟩
      · exact ⟨_, rfl, hfull⟩

theorem converges_iff_atHome (h : s.Inv) (event : Event) : s.Converges playerID event ↔ s.AtHome playerID event := by
  cases event with
  | create room e => exact Iff.rfl
  | mutate roomID callback e => exact Iff.rfl
  | restore es =>
    obtain ⟨V, ht, hs, hc⟩ := h
    cases hl : s.world.located es playerID with
    | error err =>
      have hres := (step_of_not_located hl).1
      simp [Session.Converges, Session.AtHome, hl, hres]
    | ok room =>
      obtain ⟨e, w', hres, hstep, hw⟩ := step_of_located hl
      obtain ⟨ht', hs', hroom, hbuf⟩ := tracked_restore ht hs hw
      have hc' : Held (fun x => V x ∨ x = w') s.client := hc.mono fun _ => .inl
      have hconv : s.Converges playerID (.restore es) ↔
          ∃ r, s.client.after e (w'.buffer room.id) room = some r ∧ r.Agrees room := by
        simp only [Session.Converges, hres, Except.ok.injEq, Reply.restored.injEq, forall_eq', answered_room, hstep, hbuf]
      have hhome : s.AtHome playerID (.restore es) ↔ s.client.room.map (·.id) = some room.id ∨
          s.client.version ≠ room.stateVersion ∧ ∀ d ∈ w'.buffer room.id, d.fromStateVersion ≠ s.client.version := by
        simp only [Session.AtHome, hl, Except.ok.injEq, forall_eq', hbuf]
      rw [hconv, hhome]
      constructor
      · rintro ⟨r, hr, ha⟩
        unfold Client.after at hr
        split at hr
        · exact .inl (by rw [hr, Option.map_some, ha.id])
        · rename_i hne
          split at hr
          · rename_i hlt
            cases hd : composeDeltas e room.id (w'.buffer room.id) s.client.version room.stateVersion with
            | some d =>
              simp only [hd, Option.map_eq_some_iff] at hr
              obtain ⟨held, hheld, rfl⟩ := hr
              exact .inl (by rw [hheld, Option.map_some]; exact congrArg some ha.id)
            | none => exact .inr ⟨hne, (composeDeltas_eq_none (hs'.contiguous _ _ hroom) hlt).mp hd⟩
          · rename_i hlt
            refine .inr ⟨hne, fun d hd heq => hlt ?_⟩
            obtain ⟨hfrom, hto⟩ := toStateVersion_le (hs'.contiguous _ _ hroom) d hd
            exact heq ▸ UInt64.lt_of_lt_of_le hfrom hto
      · rintro (hid | ⟨hne, hstart⟩)
        · obtain ⟨held, hheld, hid⟩ := Option.map_eq_some_iff.mp hid
          exact after_agrees ht' hs' hc' hroom hheld hid
        · refine ⟨_, ?_, roomOfSnapshot_agrees (ht'.own _ _ hroom).2⟩
          unfold Client.after
          rw [if_neg hne]
          split
          · rename_i hlt
            rw [(composeDeltas_eq_none (hs'.contiguous _ _ hroom) hlt).mpr hstart]
          · rfl

theorem inv_exec {e : Env} {c : Cmd} {r : Ans c} {w : World} (h : s.Inv) (hc : Tame c)
    (hx : exec 0 e s.world c = some (r, w)) : Session.Inv { s with world := w } := by
  obtain ⟨V, ht, hs, hheld⟩ := h
  exact ⟨_, tracked_exec ht hc hx, synced_exec ht hs hc hx, hheld.mono fun _ => .inl⟩

theorem inv_step (h : s.Inv) {event : Event} (htame : event.Tame) (hconv : s.Converges playerID event) :
    (s.step playerID event).Inv := by
  cases event with
  | create room e => exact inv_exec (e := e) (c := .create room) h htame rfl
  | mutate roomID callback e => exact inv_exec (e := e) (c := .mutate roomID callback) h htame rfl
  | restore es =>
    obtain ⟨V, ht, hs, hc⟩ := h
    cases hl : s.world.located es playerID with
    | error err =>
      rcases (step_of_not_located hl).2 with heq | ⟨hw, hzero⟩
      · rw [heq]
        exact ⟨V, ht, hs, hc⟩
      · exact ⟨V, hw ▸ ht, hw ▸ hs, .inl hzero⟩
    | ok room =>
      obtain ⟨e, w', hres, hstep, hw⟩ := step_of_located hl
      obtain ⟨ht', hs', hroom, -⟩ := tracked_restore ht hs hw
      obtain ⟨r, hr, ha⟩ := hconv _ hres
      rw [answered_room] at ha
      rw [hstep] at hr ⊢
      exact ⟨_, ht', hs', .inr ⟨r, room, hr, ha.stateVersion, ⟨w', .inr rfl, ha.id ▸ hroom⟩, ha⟩⟩

theorem throughout_iff : ∀ (events : List Event) {s : Session}, (∀ event ∈ events, event.Tame) → s.Inv →
    (s.Throughout playerID (Session.Converges playerID) events ↔ s.Throughout playerID (Session.AtHome playerID) events)
  | [], _, _, _ => Iff.rfl
  | event :: events, s, htame, h => by
    obtain ⟨ht, htame⟩ := List.forall_mem_cons.mp htame
    have hiff : s.Converges playerID event ↔ s.AtHome playerID event := converges_iff_atHome h event
    constructor
    · rintro ⟨hc, hrest⟩
      exact ⟨hiff.mp hc, (throughout_iff events htame (inv_step h ht hc)).mp hrest⟩
    · rintro ⟨ha, hrest⟩
      have hc := hiff.mpr ha
      exact ⟨hc, (throughout_iff events htame (inv_step h ht hc)).mpr hrest⟩

end

def Session.init (snapshots : Coll roomSnapshotIndexes) : Session := ⟨⟨∅, ∅, snapshots⟩, {}⟩

theorem inv_init (snapshots : Coll roomSnapshotIndexes) : (Session.init snapshots).Inv := by
  have hempty : ∀ id r, ¬ (Session.init snapshots).world.rooms.lookup id = some r := fun _ _ h => nomatch h
  exact ⟨_, tracked_start snapshots "" 0 [], ⟨fun id r h => absurd h (hempty id r), fun id r h => absurd h (hempty id r),
    fun id r h => absurd h (hempty id r), fun _ _ hd => (nomatch hd)⟩, .inl rfl⟩

/-- In every history the client has the manager's room after each restore, if and
only if no restore finds the player in a room other than the client's whose
version, or whose deltas, the client's version happens to fit. -/
theorem client_converges_iff (snapshots : Coll roomSnapshotIndexes) (playerID : String) (events : List Event)
    (htame : ∀ event ∈ events, event.Tame) :
    (Session.init snapshots).Throughout playerID (Session.Converges playerID) events ↔
      (Session.init snapshots).Throughout playerID (Session.AtHome playerID) events :=
  throughout_iff events htame (inv_init snapshots)

theorem client_converges_hit :
    (Session.init .empty).Throughout "player-1" (Session.Converges "player-1")
      [.create room102 {}, .restore fun _ => {}, .mutate 102 (putPlayer (player1 90)) {}, .restore fun _ => {}] := by
  refine (client_converges_iff .empty "player-1" _ ?_).mpr ⟨trivial, ?_, trivial, ?_, trivial⟩
  · simp only [List.forall_mem_cons, List.not_mem_nil, false_imp_iff, implies_true, and_true]
    exact ⟨room102_keyed, trivial, (putPlayer_playersOnly _).toKeepsVersion, trivial⟩
  · intro room h
    cases h
    exact .inr ⟨by decide, by decide⟩
  · intro room h
    cases h
    exact .inl (by decide)

def removePlayer (playerID : String) : Callback := fun r => ({ r with players := r.players.erase playerID }, none)

def room103 : Room := { room102 with id := 103 }

def roomChange : List Event :=
  [.create room102 {}, .restore fun _ => {}, .mutate 102 (removePlayer "player-1") {}, .create room103 {}]

theorem client_keeps_old_room :
    let s := roomChange.foldl (Session.step "player-1") (Session.init .empty)
    s.client.room.map (·.id) = some 102 ∧
      (∃ result, s.restored "player-1" (fun _ => {}) = .ok (.restored result) ∧ result.room.id = 103 ∧ result.mode = .noop) ∧
      (s.step "player-1" (.restore fun _ => {})).client.room.map (·.id) = some 102 ∧
      ¬ (Session.init .empty).Throughout "player-1" (Session.Converges "player-1") (roomChange ++ [.restore fun _ => {}]) := by
  refine ⟨by decide, ⟨_, rfl, by decide, by decide⟩, by decide, fun h => ?_⟩
  obtain ⟨-, -, -, -, h, -⟩ := h
  obtain ⟨room, hroom, ha⟩ := h _ rfl
  have hid : room.id = 102 := by
    have := congrArg (Option.map Room.id) hroom.symm
    exact Option.some.inj (this.trans (by decide))
  exact absurd (hid.symm.trans ha.id) (by decide)

end GameServer.Battle
