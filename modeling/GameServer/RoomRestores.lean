import GameServer.BattleConverge
import GameServer.RoomMutations

/-!
# What a restore returns

Calls of one `RoomManager` after the other, with restarts. The mode of a restore
is decided by the versions alone: the delta buffer of a room in memory holds the
last `deltaSize` of the mutations since the room came into memory. Which room is
restored is not: the memory is scanned in the order of the map and the first room
with the player is taken, whatever the repository holds.
-/

namespace GameServer.Battle

/-! ## Which room -/

def RoomSnapshotDocument.Lists (d : RoomSnapshotDocument) (playerID : String) : Prop :=
  ∃ s ∈ d.players, s.playerID = playerID

instance (d : RoomSnapshotDocument) (playerID : String) : Decidable (d.Lists playerID) :=
  inferInstanceAs (Decidable (∃ s ∈ d.players, s.playerID = playerID))

def World.Latest (w : World) (playerID : String) (room : Room) : Prop :=
  ∃ d ∈ w.snapshots, d.roomID = room.id ∧ d.Lists playerID ∧
    ∀ d' ∈ w.snapshots, d'.Lists playerID → d'.updatedAt ≤ d.updatedAt

def World.SelectsLatest (w : World) : Operation → Prop
  | .restore playerID _ =>
    ∀ es room, ((restoreByPlayerID playerID).alone answerOf es w).1 = .ok room → w.Latest playerID room
  | _ => True

def World.HoldsLatest (w : World) : Operation → Prop
  | .restore playerID _ => playerID ≠ "" → ∀ id room, w.rooms.lookup id = some room → playerID ∈ room.players →
      w.Latest playerID room
  | _ => True

section
variable {w w' : World} {e : Env}

theorem alone_restoreByPlayerID (w : World) (playerID : String) (es : Nat → Env) :
    ((restoreByPlayerID playerID).alone answerOf es w).1 = w.located es playerID := by
  unfold World.located restoreByPlayerID
  by_cases hp : playerID = ""
  · simp [hp, Prog.alone]
  simp only [hp, if_false, perform, Prog.perform_bind, Prog.alone, answerOf, World.answer]
  cases w.scan (es 0) playerID with
  | some room => rfl
  | none =>
    simp only [Prog.alone, answerOf, World.answer, Nat.zero_add]
    cases w.findByPlayerID (es 1) playerID <;> rfl

theorem scan_some {playerID : String} {room : Room} (h : w.scan e playerID = some room) :
    ∃ id, w.rooms.lookup id = some room ∧ playerID ∈ room.players := by
  obtain ⟨⟨id, r⟩, hfind, rfl⟩ := Option.map_eq_some_iff.mp h
  have hmem := mem_shuffle.mp (List.mem_of_find?_eq_some hfind)
  exact ⟨id, AList.mem_lookup_iff.mpr hmem, by simpa using List.find?_some hfind⟩

theorem exists_scan {playerID : String} {id : UInt64} {room : Room} (h : w.rooms.lookup id = some room)
    (hp : playerID ∈ room.players) : ∃ e : Env, w.scan e playerID = some room := by
  have hmem := AList.mem_lookup_iff.mp h
  obtain ⟨order, horder⟩ := exists_shuffle_of_perm (List.perm_cons_erase hmem).symm
  refine ⟨{ order := fun _ => order }, ?_⟩
  simp [World.scan, horder, hp]

theorem findByPlayerID_latest {playerID : String} {room : Room} (h : w.findByPlayerID e playerID = .ok room) :
    ∃ d ∈ w.snapshots, roomSnapshotDomainFromDocument d = .ok room ∧ d.Lists playerID ∧
      ∀ d' ∈ w.snapshots, d'.Lists playerID → d'.updatedAt ≤ d.updatedAt := by
  unfold World.findByPlayerID at h
  split at h
  · cases h
  split at h
  · cases h
  simp only at h
  split at h
  · cases h
  · rename_i d hd
    obtain ⟨hmem, hlists⟩ := List.mem_filter.mp (List.argmax_mem hd)
    refine ⟨d, mem_shuffle.mp hmem, h, by simpa [RoomSnapshotDocument.Lists] using hlists, fun d' hd' hlists' => ?_⟩
    exact List.le_of_mem_argmax (List.mem_filter.mpr ⟨mem_shuffle.mpr hd', by simpa [RoomSnapshotDocument.Lists] using hlists'⟩) hd

theorem selectsLatest_iff (w : World) (op : Operation) : w.SelectsLatest op ↔ w.HoldsLatest op := by
  cases op with
  | restore playerID _ =>
    constructor
    · intro h hne id room hr hp
      obtain ⟨e, hscan⟩ := exists_scan hr hp
      refine h (fun _ => e) room ?_
      rw [alone_restoreByPlayerID, World.located, if_neg hne, hscan]
    · intro h es room hroom
      rw [alone_restoreByPlayerID, World.located] at hroom
      split at hroom
      · cases hroom
      · rename_i hne
        split at hroom
        · rename_i r hscan
          cases hroom
          obtain ⟨id, hr, hp⟩ := scan_some hscan
          exact h hne id room hr hp
        · obtain ⟨d, hd, hdecode, hlists, hlatest⟩ := findByPlayerID_latest hroom
          exact ⟨d, hd, by rw [decode_ok hdecode], hlists, hlatest⟩
  | create room e => exact Iff.rfl
  | mutate roomID callback e => exact Iff.rfl
  | restart => exact Iff.rfl

end

/-- In every run of `Create`, `Mutate`, `RestoreByPlayerID` and restarts, each
restore selects the latest stored room with the player, whatever the order of the
maps, exactly if at each restore every room in memory with the player is the
latest stored one. -/
theorem restore_selects_latest_iff (snapshots : Coll roomSnapshotIndexes) (ops : List Operation) :
    let w : World := ⟨∅, ∅, snapshots⟩
    w.Throughout World.SelectsLatest ops ↔ w.Throughout World.HoldsLatest ops :=
  throughout_congr selectsLatest_iff ops _

theorem restore_selects_older :
    let old := { room102 with updatedAt := 1000000 }
    let w := [Operation.create old {}, .create { old with id := 103, updatedAt := 2000000 } {}].foldl World.after
      ⟨∅, ∅, .empty⟩
    let es : Nat → Env := fun _ => { order := fun _ => [1, 0] }
    (((restoreByPlayerID "player-1").alone answerOf es w).1.toOption.map (·.id)) = some 102 ∧
      w.snapshots.docs.map (fun d => (d.roomID, d.updatedAt)) = [(103, 2000000), (102, 1000000)] ∧
      ¬ w.SelectsLatest (.restore "player-1" es) := by
  intro old w es
  refine ⟨by decide, by decide, fun h => ?_⟩
  obtain ⟨d, hd, hid, -, hlatest⟩ := h es old (by rfl)
  have hold : ∀ d ∈ w.snapshots.docs, d.roomID = 102 → d.updatedAt < 2000000 := by decide
  have hnew : ∃ d ∈ w.snapshots.docs, d.Lists "player-1" ∧ d.updatedAt = 2000000 := by decide
  obtain ⟨d', hd', hlists, htime⟩ := hnew
  exact absurd (htime ▸ hlatest d' hd' hlists) (Nat.not_le_of_lt (hold d hd hid))

/-! ## Which mode -/

structure ChangesPlayers (callback : Callback) : Prop where
  others : ∀ r, (callback r).1 = { r with players := (callback r).1.players }
  failed : ∀ r err, (callback r).2 = some err → (callback r).1 = r

def Operation.WellBehaved : Operation → Prop
  | .mutate _ callback _ => ChangesPlayers callback
  | _ => True

def World.tally (w : World) (k : UInt64 → Nat) : Operation → UInt64 → Nat
  | .mutate roomID callback e, id => if id = roomID ∧ (w.mutate e roomID callback).1.isOk then k id + 1 else k id
  | _, id => if id ∈ w.rooms then k id else 0

def World.tallied (w : World) (k : UInt64 → Nat) : List Operation → World × (UInt64 → Nat)
  | [] => (w, k)
  | op :: ops => (w.after op).tallied (w.tally k op) ops

def Window (v : Nat) : List RoomDelta → Prop
  | [] => True
  | d :: ds => d.fromStateVersion.toNat + ds.length + 1 = v ∧ d.toStateVersion.toNat + ds.length = v ∧ Window v ds

theorem window_append {v : Nat} {d : RoomDelta} (hold : d.fromStateVersion.toNat = v) (hnew : d.toStateVersion.toNat = v + 1) :
    ∀ {ds : List RoomDelta}, Window v ds → Window (v + 1) (ds ++ [d])
  | [], _ => ⟨by simp [hold], by simp [hnew], trivial⟩
  | x :: ds, h => by
    refine ⟨?_, ?_, window_append hold hnew h.2.2⟩
    · show x.fromStateVersion.toNat + (ds ++ [d]).length + 1 = v + 1
      rw [List.length_append, ← h.1]
      rfl
    · show x.toStateVersion.toNat + (ds ++ [d]).length = v + 1
      rw [List.length_append, ← h.2.1]
      rfl

theorem window_drop {v : Nat} : ∀ (n : Nat) {ds : List RoomDelta}, Window v ds → Window v (ds.drop n)
  | 0, _, h => h
  | _ + 1, [], _ => trivial
  | n + 1, _ :: _, h => window_drop n h.2.2

theorem window_contiguous {v : UInt64} : ∀ {ds : List RoomDelta}, Window v.toNat ds → Contiguous v ds
  | [], _ => trivial
  | d :: ds, h => by
    obtain ⟨hold, hnew, hrest⟩ := h
    refine ⟨?_, ?_, window_contiguous hrest⟩
    · rw [UInt64.lt_iff_toNat_lt]
      omega
    · apply UInt64.toNat_inj.mp
      cases ds with
      | nil => simpa [firstVersion] using hnew
      | cons x ds =>
        have hx := hrest.1
        simp only [List.length_cons, firstVersion] at *
        omega

theorem exists_mem_window {v : Nat} {last : UInt64} : ∀ {ds : List RoomDelta}, Window v ds →
    ((∃ d ∈ ds, d.fromStateVersion = last) ↔ v - ds.length ≤ last.toNat ∧ last.toNat < v)
  | [], _ => by
    simp
  | d :: ds, h => by
    have hold := h.1
    rw [List.exists_mem_cons_iff, exists_mem_window h.2.2, ← UInt64.toNat_inj]
    simp only [List.length_cons]
    omega

structure Buffered (v : UInt64) (k : Nat) (ds : List RoomDelta) : Prop where
  since : k < v.toNat
  length : ds.length = min k deltaSize
  window : Window v.toNat ds

theorem Buffered.nil {v : UInt64} (hv : v ≠ 0) : Buffered v 0 [] :=
  ⟨Nat.pos_of_ne_zero fun hz => hv (UInt64.toNat_inj.mp hz), rfl, trivial⟩

theorem Buffered.push {v : UInt64} {k : Nat} {ds : List RoomDelta} {d : RoomDelta} (h : Buffered v k ds)
    (hold : d.fromStateVersion = v) (hnew : d.toStateVersion = v + 1) (hv : v + 1 ≠ 0) :
    Buffered (v + 1) (k + 1) ((ds ++ [d]).drop ((ds ++ [d]).length - deltaSize)) := by
  have hnext : (v + 1).toNat = v.toNat + 1 := by
    have := version_succ hv
    rw [UInt64.lt_iff_toNat_lt, UInt64.toNat_add] at this
    rw [UInt64.toNat_add]
    have hlt := v.toNat_lt
    simp only [UInt64.toNat_one] at *
    omega
  refine ⟨?_, ?_, ?_⟩
  · rw [hnext]
    exact Nat.succ_lt_succ h.since
  · have := h.length
    simp only [List.length_drop, List.length_append, List.length_singleton]
    omega
  · rw [hnext]
    have hwindow : Window (v.toNat + 1) (ds ++ [d]) := window_append (by rw [hold]) (by rw [hnew, hnext]) h.window
    generalize (ds ++ [d]).length - deltaSize = n
    exact window_drop n hwindow

theorem buffer_recordDelta_ne {w : World} {e : Env} {previous current : Room} {id : UInt64} (h : id ≠ current.id) :
    (w.recordDelta e previous current).buffer id = w.buffer id := by
  unfold World.buffer World.recordDelta
  rw [AList.lookup_insert_ne h]

structure Tallied (w : World) (k : UInt64 → Nat) : Prop where
  own : ∀ id r, w.rooms.lookup id = some r → r.id = id
  stored : ∀ id r, w.rooms.lookup id = some r → ∀ d ∈ w.snapshots, d.roomID = id → d.stateVersion = r.stateVersion
  buffered : ∀ id r, w.rooms.lookup id = some r → Buffered r.stateVersion (k id) (w.buffer id)
  absent : ∀ id, id ∉ w.rooms → w.buffer id = []

section
variable {w w' : World} {e : Env} {k k' : UInt64 → Nat}

theorem Tallied.put {room : Room} (h : Tallied w k) (hversion : room.stateVersion ≠ 0)
    (hrooms : w'.rooms = w.rooms.insert room.id room) (hbuffer : ∀ id, w'.buffer id = w.buffer id)
    (hstored : ∀ d ∈ w'.snapshots, d.roomID = room.id → d.stateVersion = room.stateVersion)
    (hothers : ∀ d ∈ w'.snapshots, d.roomID ≠ room.id → d ∈ w.snapshots)
    (hagain : ∀ r, w.rooms.lookup room.id = some r → r.stateVersion = room.stateVersion) :
    Tallied w' (fun id => if id ∈ w.rooms then k id else 0) := by
  have hcases : ∀ id r, w'.rooms.lookup id = some r → id = room.id ∧ r = room ∨ id ≠ room.id ∧ w.rooms.lookup id = some r :=
    fun id r hr => lookup_insert_cases (hrooms ▸ hr)
  refine ⟨fun id r hr => ?_, fun id r hr => ?_, fun id r hr => ?_, fun id hid => ?_⟩
  · rcases hcases id r hr with ⟨rfl, rfl⟩ | ⟨-, hr⟩
    · rfl
    · exact h.own id r hr
  · rcases hcases id r hr with ⟨rfl, rfl⟩ | ⟨hne, hr⟩
    · exact hstored
    · intro d hd hid
      exact h.stored id r hr d (hothers d hd (hid ▸ hne)) hid
  · rw [hbuffer]
    rcases hcases id r hr with ⟨rfl, rfl⟩ | ⟨-, hr⟩
    · by_cases hmem : r.id ∈ w.rooms
      · obtain ⟨old, hold⟩ := Option.isSome_iff_exists.mp (AList.lookup_isSome.mpr hmem)
        rw [if_pos hmem, ← hagain old hold]
        exact h.buffered _ old hold
      · rw [if_neg hmem, h.absent _ hmem]
        exact .nil hversion
    · rw [if_pos (AList.lookup_isSome.mp (by rw [hr]; rfl))]
      exact h.buffered id r hr
  · rw [hbuffer]
    refine h.absent id fun hmem => hid ?_
    rw [hrooms, AList.mem_insert]
    exact .inr hmem

theorem Tallied.same (h : Tallied w k) : Tallied w (fun id => if id ∈ w.rooms then k id else 0) := by
  refine ⟨h.own, h.stored, fun id r hr => ?_, h.absent⟩
  rw [if_pos (AList.lookup_isSome.mp (by rw [hr]; rfl))]
  exact h.buffered id r hr

theorem lookup_insert_of_lookup {rooms : AList fun _ : UInt64 => Room} {id : UInt64} {room : Room}
    (h : rooms.lookup id = some room) (id' : UInt64) : (rooms.insert id room).lookup id' = rooms.lookup id' := by
  by_cases heq : id' = id
  · rw [heq, AList.lookup_insert, h]
  · rw [AList.lookup_insert_ne heq]

theorem Tallied.congr (h : Tallied w k) (hrooms : ∀ id, w'.rooms.lookup id = w.rooms.lookup id) (hdeltas : w'.deltas = w.deltas)
    (hsnapshots : w'.snapshots = w.snapshots) : Tallied w' k := by
  have hbuffer : ∀ id, w'.buffer id = w.buffer id := fun id => by rw [World.buffer, hdeltas, World.buffer]
  refine ⟨?_, ?_, ?_, fun id hid => ?_⟩
  · simp only [hrooms]
    exact h.own
  · simp only [hrooms, hsnapshots]
    exact h.stored
  · simp only [hrooms, hbuffer]
    exact h.buffered
  · rw [hbuffer]
    refine h.absent id fun hmem => hid ?_
    rw [← AList.lookup_isSome, hrooms]
    exact AList.lookup_isSome.mpr hmem

theorem Tallied.next {previous next : Room} {roomID : UInt64} {d : RoomSnapshotDocument} (h : Tallied w k)
    (hp : w.rooms.lookup roomID = some previous) (hid : next.id = roomID)
    (hversion : next.stateVersion = previous.stateVersion + 1) (hne : next.stateVersion ≠ 0) (hd : d.roomID = roomID)
    (hdversion : d.stateVersion = next.stateVersion) :
    Tallied (World.recordDelta { w with rooms := w.rooms.insert roomID next, snapshots := w.snapshots.upsert d } e previous next)
      (fun id => if id = roomID then k id + 1 else k id) := by
  subst hid
  refine ⟨fun id r hr => ?_, fun id r hr x hx hxid => ?_, fun id r hr => ?_, fun id hmem => ?_⟩
  · rcases lookup_insert_cases hr with ⟨rfl, rfl⟩ | ⟨-, hr⟩
    · rfl
    · exact h.own id r hr
  · rcases lookup_insert_cases hr with ⟨rfl, rfl⟩ | ⟨hother, hr⟩
    · rcases mem_upsert_snapshot.mp hx with rfl | ⟨-, hx⟩
      · exact hdversion
      · exact absurd (hd.trans hxid.symm) hx
    · rcases mem_upsert_snapshot.mp hx with rfl | ⟨hx, -⟩
      · exact absurd (hxid.symm.trans hd) hother
      · exact h.stored id r hr x hx hxid
  · rcases lookup_insert_cases hr with ⟨rfl, rfl⟩ | ⟨hother, hr⟩
    · rw [if_pos rfl, buffer_recordDelta, hversion]
      exact (h.buffered _ previous hp).push rfl hversion (hversion ▸ hne)
    · rw [if_neg hother, buffer_recordDelta_ne hother]
      exact h.buffered id r hr
  · have hother : id ≠ next.id := by
      rintro rfl
      exact hmem ((AList.mem_insert ..).mpr (.inl rfl))
    rw [buffer_recordDelta_ne hother]
    exact h.absent id fun hin => hmem ((AList.mem_insert ..).mpr (.inr hin))

theorem tallied_create (h : Tallied w k) (room : Room) (e : Env) :
    Tallied (w.after (.create room e)) (w.tally k (.create room e)) := by
  unfold World.after World.answer World.tally
  dsimp only
  cases hc : w.create e room with
  | error err => exact h.same
  | ok w' =>
    obtain ⟨hnew, hversion, rfl⟩ := create_ok hc
    refine h.put hversion rfl (fun id => ?_) (fun x hx hx' => ?_) (fun x hx hx' => ?_) fun r hr => ?_
    · unfold World.buffer
      by_cases heq : id = room.id
      · rw [heq, AList.lookup_insert]
        exact (h.absent room.id hnew).symm
      · rw [AList.lookup_insert_ne heq]
    · rcases mem_upsert_snapshot.mp hx with rfl | ⟨-, hne⟩
      · rfl
      · exact absurd hx'.symm hne
    · rcases mem_upsert_snapshot.mp hx with rfl | ⟨hx, -⟩
      · exact absurd rfl hx'
      · exact hx
    · exact absurd (AList.lookup_isSome.mp (by rw [hr]; rfl)) hnew

theorem decode_version {d : RoomSnapshotDocument} {r : Room} (h : roomSnapshotDomainFromDocument d = .ok r) :
    r.stateVersion ≠ 0 := by
  obtain ⟨r₁, -, h⟩ := bind_eq_ok h
  obtain ⟨_, hvalid, h⟩ := bind_eq_ok h
  cases h
  exact stateVersion_ne_zero hvalid

theorem tallied_restore (h : Tallied w k) (playerID : String) (es : Nat → Env) :
    Tallied (w.after (.restore playerID es)) (w.tally k (.restore playerID es)) := by
  rcases restore_inv (w := w) playerID es with heq | ⟨d, hd, room, hdecode, heq⟩
  · rw [heq]
    exact h.same
  · rw [heq]
    have hid : d.roomID = room.id := by rw [decode_ok hdecode]
    have hversion : d.stateVersion = room.stateVersion := by rw [decode_ok hdecode]
    have honly : ∀ x ∈ w.snapshots, x.roomID = room.id → x.stateVersion = room.stateVersion := by
      intro x hx hx'
      rw [Coll.eq_of_clash hx hd ((Index.on_clash _ x d).mpr (hx'.trans hid.symm)), hversion]
    refine h.put (decode_version hdecode) rfl (fun _ => rfl) honly (fun x hx _ => hx) fun r hr => ?_
    rw [← h.stored room.id r hr d hd hid, hversion]

theorem tallied_mutate (h : Tallied w k) {callback : Callback} (hf : ChangesPlayers callback) (roomID : UInt64) (e : Env) :
    Tallied (w.after (.mutate roomID callback e)) (w.tally k (.mutate roomID callback e)) := by
  rcases hm : w.mutate e roomID callback with ⟨r, w'⟩
  have hafter : w.after (.mutate roomID callback e) = w' := by rw [World.after, hm]
  rw [hafter]
  rcases mutate_inv hm with ⟨⟨err, rfl⟩, rfl⟩ | ⟨previous, room, hp, ⟨err, hcall, rfl, rfl⟩ | ⟨next, w₁, hcall, hadv, hsave, rfl, rfl⟩⟩
  · have htally : w'.tally k (.mutate roomID callback e) = k := by
      funext id
      simp [World.tally, hm, Except.isOk, Except.toBool]
    rw [htally]
    exact h
  · have htally : w.tally k (.mutate roomID callback e) = k := by
      funext id
      simp [World.tally, hm, Except.isOk, Except.toBool]
    have hsame : room = previous := by
      have := hf.failed previous err (by rw [hcall])
      rwa [hcall] at this
    rw [htally, hsame]
    exact h.congr (fun id => lookup_insert_of_lookup hp id) rfl rfl
  · have htally : ∀ id, w.tally k (.mutate roomID callback e) id = if id = roomID then k id + 1 else k id := by
      intro id
      simp [World.tally, hm, Except.isOk, Except.toBool]
    have hroom : room = { previous with players := room.players } := by
      have := hf.others previous
      rwa [hcall] at this
    obtain ⟨hid, hversion, -⟩ := advanceTick_ok hadv
    obtain ⟨hne, rfl⟩ := save_ok hsave
    rw [hroom] at hid hversion
    have hnext : next.id = roomID := hid.trans (h.own roomID previous hp)
    rw [funext htally]
    exact h.next hp hnext hversion hne hnext rfl

theorem tallied_after (h : Tallied w k) {op : Operation} (hop : op.WellBehaved) : Tallied (w.after op) (w.tally k op) := by
  cases op with
  | create room e => exact tallied_create h room e
  | mutate roomID callback e => exact tallied_mutate h hop roomID e
  | restore playerID es => exact tallied_restore h playerID es
  | restart =>
    refine ⟨fun id r hr => ?_, fun id r hr => ?_, fun id r hr => ?_, fun id _ => rfl⟩ <;> cases hr

theorem tallied_run : ∀ (ops : List Operation) {w : World} {k : UInt64 → Nat}, Tallied w k → (∀ op ∈ ops, op.WellBehaved) →
    Tallied (w.tallied k ops).1 (w.tallied k ops).2
  | [], _, _, h, _ => h
  | _ :: ops, _, _, h, hops => by
    rw [List.forall_mem_cons] at hops
    exact tallied_run ops (tallied_after h hops.1) hops.2

def plain (last : UInt64) (room : Room) : RestoreResult :=
  if last = room.stateVersion then { room, mode := .noop, baseStateVersion := last } else { room, mode := .full }

theorem restoreByPlayerIDSince_false (playerID : String) (last : UInt64) :
    restoreByPlayerIDSince playerID last false =
      restoreByPlayerID playerID >>= fun r => .ret (r.map fun room => .restored (plain last room)) := by
  unfold restoreByPlayerIDSince
  congr 1
  funext r
  cases r with
  | error err => rfl
  | ok room =>
    unfold answerSince plain
    by_cases h : last = room.stateVersion
    · simp [h, Except.map]
    · simp [h, Except.map]

theorem alone_restoreSince {playerID : String} {last : UInt64} {allow : Bool} {es : Nat → Env} {result : RestoreResult}
    (h : ((restoreByPlayerIDSince playerID last allow).alone answerOf es w).1 = .ok (.restored result)) :
    w.located es playerID = .ok result.room ∧
      ∃ e, result = if allow then answered e (w.buffer result.room.id) last result.room else plain last result.room := by
  cases allow with
  | true =>
    rcases alone_restore playerID last es w with ⟨err, -, heq⟩ | ⟨room, e, w', hroom, heq, -⟩
    · rw [heq] at h
      cases h
    · rw [heq] at h
      obtain rfl : answered e (w.buffer room.id) last room = result := Reply.restored.inj (Except.ok.inj h)
      rw [answered_room]
      exact ⟨hroom, e, by rw [if_pos rfl]⟩
  | false =>
    rw [restoreByPlayerIDSince_false, Prog.alone_bind_ret, alone_restoreByPlayerID] at h
    cases hroom : w.located es playerID with
    | error err =>
      rw [hroom] at h
      cases h
    | ok room =>
      rw [hroom] at h
      obtain rfl : plain last room = result := Reply.restored.inj (Except.ok.inj h)
      have hsame : (plain last room).room = room := by
        unfold plain
        split <;> rfl
      rw [hsame]
      exact ⟨rfl, {}, by rw [if_neg Bool.false_ne_true]⟩

theorem Tallied.located {playerID : String} {es : Nat → Env} {room : Room} (h : Tallied w k)
    (hroom : w.located es playerID = .ok room) :
    Buffered room.stateVersion (if room.id ∈ w.rooms then k room.id else 0) (w.buffer room.id) := by
  unfold World.located at hroom
  split at hroom
  · cases hroom
  split at hroom
  · rename_i r hscan
    cases hroom
    obtain ⟨id, hr, -⟩ := scan_some hscan
    obtain rfl := h.own id room hr
    rw [if_pos (AList.lookup_isSome.mp (by rw [hr]; rfl))]
    exact h.buffered _ room hr
  · obtain ⟨d, hd, hdecode⟩ := findByPlayerID_ok hroom
    by_cases hmem : room.id ∈ w.rooms
    · obtain ⟨old, hold⟩ := Option.isSome_iff_exists.mp (AList.lookup_isSome.mpr hmem)
      have hversion : room.stateVersion = old.stateVersion := by
        rw [← h.stored room.id old hold d hd (by rw [decode_ok hdecode])]
        rw [decode_ok hdecode]
      rw [if_pos hmem, hversion]
      exact h.buffered _ old hold
    · rw [if_neg hmem, h.absent _ hmem]
      exact .nil (decode_version hdecode)

theorem mode_of_buffered {v last : UInt64} {k : Nat} {room : Room} {ds : List RoomDelta} (hv : room.stateVersion = v)
    (h : Buffered v k ds) (e : Env) (allow : Bool) :
    (if allow then answered e ds last room else plain last room).mode =
      if last = v then .noop
      else if allow = true ∧ v.toNat - min k deltaSize ≤ last.toNat ∧ last < v then .delta
      else .full := by
  subst hv
  have hmem : (∃ d ∈ ds, d.fromStateVersion = last) ↔ _ := exists_mem_window h.window
  rw [h.length, ← UInt64.lt_iff_toNat_lt] at hmem
  by_cases hnoop : last = room.stateVersion
  · cases allow <;> simp [hnoop, answered, plain]
  cases allow with
  | false => simp [hnoop, plain]
  | true =>
    by_cases hlt : last < room.stateVersion
    · have hnone : composeDeltas e room.id ds last room.stateVersion = none ↔ _ :=
        composeDeltas_eq_none (window_contiguous h.window) hlt
      have hnone : composeDeltas e room.id ds last room.stateVersion = none ↔ ¬ _ :=
        hnone.trans ((by simp : _ ↔ ¬∃ d ∈ ds, d.fromStateVersion = last).trans (not_congr hmem))
      simp only [answered, hnoop, hlt, if_false, if_true, true_and, and_true] at hnone ⊢
      cases hcompose : composeDeltas e room.id ds last room.stateVersion with
      | none => rw [if_neg (hnone.mp hcompose)]
      | some delta =>
        rw [if_pos (not_not.mp fun hno => ?_)]
        rw [hnone.mpr hno] at hcompose
        cases hcompose
    · simp [hnoop, answered, hlt]

end

/-- After any calls with well-behaved callbacks, and restarts, a restore that
returns a room at version `v`, `k` successful mutations after it came into memory,
has mode noop, delta or full as the versions say. -/
theorem restore_mode (snapshots : Coll roomSnapshotIndexes) (ops : List Operation) (hops : ∀ op ∈ ops, op.WellBehaved)
    (playerID : String) (last : UInt64) (allow : Bool) (es : Nat → Env) (result : RestoreResult) :
    let (w, since) := World.tallied ⟨∅, ∅, snapshots⟩ (fun _ => 0) ops
    ((restoreByPlayerIDSince playerID last allow).alone answerOf es w).1 = .ok (.restored result) →
      let v := result.room.stateVersion
      let k := if result.room.id ∈ w.rooms then since result.room.id else 0
      let delta := allow = true ∧ v.toNat - min k 1024 ≤ last.toNat ∧ last < v
      (result.mode = .noop ↔ last = v) ∧ (result.mode = .delta ↔ delta) ∧ (result.mode = .full ↔ last ≠ v ∧ ¬ delta) ∧
        k < v.toNat := by
  intro h v k delta
  have htallied := tallied_run ops (w := ⟨∅, ∅, snapshots⟩) (k := fun _ => 0)
    ⟨fun _ _ h => (by cases h), fun _ _ h => (by cases h), fun _ _ h => (by cases h), fun _ _ => rfl⟩ hops
  obtain ⟨hroom, e, hresult⟩ := alone_restoreSince h
  have hbuffered := htallied.located hroom
  have hmode : result.mode = if last = v then .noop else if delta then .delta else .full := by
    rw [hresult]
    exact mode_of_buffered rfl hbuffered e allow
  have hk : k < v.toNat := hbuffered.since
  have hapart : delta → last ≠ v := fun hd => UInt64.ne_of_lt hd.2.2
  rw [hmode]
  by_cases hv : last = v
  · have hd : ¬ delta := fun hd => hapart hd hv
    simp [hv, hd, hk]
  · by_cases hd : delta
    · simp [hv, hd, hk]
    · simp [hv, hd, hk]

theorem putPlayer_changesPlayers (player : PlayerState) : ChangesPlayers (putPlayer player) := by
  refine ⟨fun r => rfl, fun r err h => ?_⟩
  cases h

theorem restore_mode_delta :
    let ops := [Operation.create room102 {}, .mutate 102 (putPlayer (player1 90)) {}]
    let w := (World.tallied ⟨∅, ∅, .empty⟩ (fun _ => 0) ops).1
    (∀ op ∈ ops, op.WellBehaved) ∧
      ∃ result, ((restoreByPlayerIDSince "player-1" 1 true).alone answerOf (fun _ => {}) w).1 = .ok (.restored result) ∧
        result.mode = .delta := by
  intro ops w
  have hops : ∀ op ∈ ops, op.WellBehaved := by
    simp only [ops, List.forall_mem_cons]
    exact ⟨trivial, putPlayer_changesPlayers _, by simp⟩
  refine ⟨hops, _, rfl, ?_⟩
  exact ((restore_mode .empty ops hops "player-1" 1 true (fun _ => {}) _) rfl).2.1.mpr (by decide)

end GameServer.Battle
