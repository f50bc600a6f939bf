import GameServer.BattleRestore

/-!
# Rooms across restarts

Calls of one `RoomManager` after the other. A restart empties the memory and
keeps the repository; `Create` looks for the room in memory only. The stored
versions do not decrease, and `Create` refuses what was stored before, exactly
as long as no call writes over a stored room that it does not know.
-/

namespace GameServer.Battle

inductive Operation
  | create (room : Room) (e : Env)
  | mutate (roomID : UInt64) (callback : Callback) (e : Env)
  | restore (playerID : String) (es : Nat → Env)
  | restart

def World.after (w : World) : Operation → World
  | .create room e => (w.answer e (.create room)).2
  | .mutate roomID callback e => (w.mutate e roomID callback).2
  | .restore playerID es => ((restoreByPlayerID playerID).alone answerOf es w).2
  | .restart => { w with rooms := ∅, deltas := ∅ }

def World.Throughout (P : World → Operation → Prop) : World → List Operation → Prop
  | _, [] => True
  | w, op :: ops => P w op ∧ Throughout P (w.after op) ops

def World.Stored (w : World) (roomID : UInt64) : Prop := ∃ d ∈ w.snapshots, d.roomID = roomID

instance (w : World) (roomID : UInt64) : Decidable (w.Stored roomID) :=
  inferInstanceAs (Decidable (∃ d ∈ w.snapshots.docs, d.roomID = roomID))

def World.Keeps (w w' : World) : Prop :=
  ∀ d ∈ w.snapshots, ∃ d' ∈ w'.snapshots, d'.roomID = d.roomID ∧ d.stateVersion ≤ d'.stateVersion

def World.Lawful (w : World) (op : Operation) : Prop :=
  w.Keeps (w.after op) ∧
    ∀ room e, op = .create room e → w.Stored room.id → (w.answer e (.create room)).1 = .error errDuplicateRoom

/-- `Create` is called with a stored room only if it is valid and in memory, and
`Mutate` does not store a room under a higher version of it. -/
def World.Guarded (w : World) : Operation → Prop
  | .create room _ => w.Stored room.id → room.validate = .ok () ∧ room.id ∈ w.rooms
  | .mutate roomID callback e => roomID ≠ 0 → ∀ previous room next w', w.rooms.lookup roomID = some previous →
      callback previous = (room, none) → room.advanceTick e.now = .ok next → w.save e next = .ok w' →
        ∀ d ∈ w.snapshots, d.roomID = next.id → d.stateVersion ≤ next.stateVersion
  | _ => True

/-! ## Storing -/

section
variable {w w' : World} {e : Env}

theorem mem_upsert_snapshot {c : Coll roomSnapshotIndexes} {d x : RoomSnapshotDocument} :
    x ∈ c.upsert d ↔ x = d ∨ x ∈ c ∧ d.roomID ≠ x.roomID := by
  have hclash : roomSnapshotIndexes.clash d x = false ↔ d.roomID ≠ x.roomID := by
    rw [← Bool.not_eq_true]
    exact not_congr (Index.on_clash _ d x)
  rw [Coll.mem_upsert, hclash]

theorem keeps_refl (h : w'.snapshots = w.snapshots) : w.Keeps w' :=
  fun d hd => ⟨d, h ▸ hd, rfl, UInt64.le_refl _⟩

theorem keeps_upsert_iff {d : RoomSnapshotDocument} (hs : w'.snapshots = w.snapshots.upsert d) :
    w.Keeps w' ↔ ∀ x ∈ w.snapshots, x.roomID = d.roomID → x.stateVersion ≤ d.stateVersion := by
  unfold World.Keeps
  rw [hs]
  constructor
  · intro h x hx hid
    obtain ⟨d', hd', hid', hle⟩ := h x hx
    rcases mem_upsert_snapshot.mp hd' with rfl | ⟨-, hne⟩
    · exact hle
    · exact absurd (hid'.trans hid).symm hne
  · intro h x hx
    by_cases hid : x.roomID = d.roomID
    · exact ⟨d, mem_upsert_snapshot.mpr (.inl rfl), hid.symm, h x hx hid⟩
    · exact ⟨x, mem_upsert_snapshot.mpr (.inr ⟨hx, Ne.symm hid⟩), rfl, UInt64.le_refl _⟩

/-! ## Create -/

theorem validate_ne_duplicate (room : Room) : room.validate ≠ .error errDuplicateRoom := by
  have hplayers : ∀ l : List (Sigma fun _ : String => PlayerState),
      (l.forM fun e => e.2.validate : Except GoErr Unit) ≠ .error errDuplicateRoom := by
    intro l
    induction l with
    | nil => simp [pure, Except.pure]
    | cons entry l ih =>
      show (entry.2.validate >>= fun _ => l.forM fun e => e.2.validate) ≠ _
      by_cases hv : entry.2.playerID = "" ∨ entry.2.hp < 0
      · simp [PlayerState.validate, hv, bind, Except.bind, errInvalidPlayerState, errDuplicateRoom]
      · simpa [PlayerState.validate, hv, bind, Except.bind] using ih
  unfold Room.validate
  split_ifs with hbad
  · simp [throw, throwThe, MonadExceptOf.throw, bind, Except.bind, errInvalidRoom, errDuplicateRoom]
  · simpa [pure, Except.pure, bind, Except.bind] using hplayers _

theorem save_ne_duplicate (room : Room) : w.save e room ≠ .error errDuplicateRoom := by
  unfold World.save roomSnapshotDocumentFromDomain
  cases hv : room.validate with
  | error err =>
    have hne := validate_ne_duplicate room
    rw [hv] at hne
    simpa [bind, Except.bind] using hne
  | ok =>
    simp only [bind, Except.bind, pure, Except.pure]
    split <;> simp [throw, throwThe, MonadExceptOf.throw, errDuplicateRoom]

theorem create_duplicate_iff (room : Room) :
    w.create e room = .error errDuplicateRoom ↔ room.validate = .ok () ∧ room.id ∈ w.rooms := by
  unfold World.create
  cases hv : room.validate with
  | error err =>
    have hne := validate_ne_duplicate room
    rw [hv] at hne
    simpa [bind, Except.bind] using hne
  | ok =>
    by_cases hmem : room.id ∈ w.rooms
    · simp [hmem, bind, Except.bind, throw, throwThe, MonadExceptOf.throw]
    · have hsave := save_ne_duplicate (w := w) (e := e) room
      cases hs : w.save e room with
      | error err =>
        rw [hs] at hsave
        simpa [hmem, hs, bind, Except.bind, pure, Except.pure] using hsave
      | ok w₁ => simp [hmem, bind, Except.bind, pure, Except.pure]

theorem answer_create_fst (room : Room) :
    (w.answer e (.create room)).1 = .error errDuplicateRoom ↔ room.validate = .ok () ∧ room.id ∈ w.rooms := by
  rw [← create_duplicate_iff (e := e)]
  unfold World.answer
  dsimp only
  split
  · rename_i err herr
    rw [herr]
    simp
  · rename_i hok
    rw [hok]
    simp

theorem lawful_create_iff (room : Room) (e : Env) : w.Lawful (.create room e) ↔ w.Guarded (.create room e) := by
  constructor
  · intro h hstored
    exact (answer_create_fst room).mp (h.2 room e rfl hstored)
  · intro h
    refine ⟨?_, ?_⟩
    · unfold World.after World.answer
      dsimp only
      split
      · exact keeps_refl rfl
      · rename_i w₁ hok
        obtain ⟨hnew, -, rfl⟩ := create_ok hok
        refine (keeps_upsert_iff rfl).mpr fun x hx hxd => ?_
        exact absurd (h ⟨x, hx, hxd⟩).2 hnew
    · rintro _ _ ⟨⟩ hstored
      exact (answer_create_fst room).mpr (h hstored)

/-! ## Mutate and restore -/

theorem lawful_mutate_iff (roomID : UInt64) (callback : Callback) (e : Env) :
    w.Lawful (.mutate roomID callback e) ↔ w.Guarded (.mutate roomID callback e) := by
  constructor
  · intro h hzero previous room next w' hp hcall hadv hsave x hx hid
    obtain ⟨-, rfl⟩ := save_ok hsave
    have hs : (w.after (.mutate roomID callback e)).snapshots = w.snapshots.upsert (storedDocument e next) := by
      simp only [World.after, World.mutate, if_neg hzero, hp, hcall, hadv, hsave]
      rfl
    exact (keeps_upsert_iff hs).mp h.1 x hx hid
  · intro h
    refine ⟨?_, fun _ _ hop => by cases hop⟩
    by_cases hzero : roomID = 0
    · simp only [World.after, World.mutate, if_pos hzero]
      exact keeps_refl rfl
    rcases hm : w.mutate e roomID callback with ⟨r, w'⟩
    show w.Keeps (w.mutate e roomID callback).2
    rw [hm]
    rcases mutate_inv hm with ⟨-, rfl⟩ | ⟨previous, room, hp, ⟨-, -, -, rfl⟩ | ⟨next, w₁, hcall, hadv, hsave, -, rfl⟩⟩
    · exact keeps_refl rfl
    · exact keeps_refl rfl
    · have hs : (World.recordDelta { w₁ with rooms := w₁.rooms.insert roomID next } e previous next).snapshots =
          w.snapshots.upsert (storedDocument e next) := by
        rw [(save_ok hsave).2]
        rfl
      exact (keeps_upsert_iff hs).mpr fun x hx hxd => h hzero previous room next w₁ hp hcall hadv hsave x hx hxd

theorem findByPlayerID_ok {playerID : String} {room : Room} (h : w.findByPlayerID e playerID = .ok room) :
    ∃ d ∈ w.snapshots, roomSnapshotDomainFromDocument d = .ok room := by
  unfold World.findByPlayerID at h
  split at h
  · cases h
  split at h
  · cases h
  simp only at h
  split at h
  · cases h
  · rename_i d hd
    exact ⟨d, mem_shuffle.mp (List.mem_filter.mp (List.argmax_mem hd)).1, h⟩

theorem restore_inv (playerID : String) (es : Nat → Env) :
    w.after (.restore playerID es) = w ∨ ∃ d ∈ w.snapshots, ∃ room : Room, roomSnapshotDomainFromDocument d = .ok room ∧
      w.after (.restore playerID es) = { w with rooms := w.rooms.insert room.id room } := by
  by_cases hempty : playerID = ""
  · left
    simp only [World.after, restoreByPlayerID, if_pos hempty]
    rfl
  cases hscan : w.scan (es 0) playerID with
  | some room =>
    left
    simp only [World.after, restoreByPlayerID, if_neg hempty, perform, Prog.perform_bind, Prog.alone, answerOf, World.answer, hscan]
    rfl
  | none =>
    cases hfind : w.findByPlayerID (es 1) playerID with
    | error err =>
      left
      simp only [World.after, restoreByPlayerID, if_neg hempty, perform, Prog.perform_bind, Prog.alone, answerOf, World.answer,
        hscan, Nat.zero_add, hfind]
      rfl
    | ok room =>
      obtain ⟨d, hd, hdecode⟩ := findByPlayerID_ok hfind
      refine .inr ⟨d, hd, room, hdecode, ?_⟩
      simp only [World.after, restoreByPlayerID, if_neg hempty, perform, Prog.perform_bind, Prog.alone, answerOf, World.answer,
        hscan, Nat.zero_add, hfind]
      rfl

theorem lawful_iff (w : World) (op : Operation) : w.Lawful op ↔ w.Guarded op := by
  cases op with
  | create room e => exact lawful_create_iff room e
  | mutate roomID callback e => exact lawful_mutate_iff roomID callback e
  | restore playerID es =>
    refine ⟨fun _ => trivial, fun _ => ⟨?_, fun _ _ hop => by cases hop⟩⟩
    rcases restore_inv (w := w) playerID es with h | ⟨-, -, room, -, h⟩
    · rw [h]
      exact keeps_refl rfl
    · rw [h]
      exact keeps_refl rfl
  | restart => exact ⟨fun _ => trivial, fun _ => ⟨keeps_refl rfl, fun _ _ hop => by cases hop⟩⟩

theorem throughout_congr {P Q : World → Operation → Prop} (h : ∀ w op, P w op ↔ Q w op) : ∀ (ops : List Operation) (w : World),
    w.Throughout P ops ↔ w.Throughout Q ops
  | [], _ => Iff.rfl
  | op :: ops, w => and_congr (h w op) (throughout_congr h ops _)

/-! ## Callbacks as callers write them -/

def Operation.Modest : Operation → Prop
  | .mutate _ callback _ => ∀ r, (callback r).1.id = r.id ∧ r.stateVersion ≤ (callback r).1.stateVersion
  | _ => True

def World.Recalled (w : World) : Operation → Prop
  | .create room _ => w.Stored room.id → room.validate = .ok () ∧ room.id ∈ w.rooms
  | _ => True

def World.Backed (w : World) : Prop :=
  ∀ id r, w.rooms.lookup id = some r → r.id = id ∧ ∃ d ∈ w.snapshots, d.roomID = id ∧ d.stateVersion ≤ r.stateVersion

theorem backed_put {room : Room} {d : RoomSnapshotDocument} (h : w.Backed) (hid : d.roomID = room.id)
    (hversion : d.stateVersion = room.stateVersion) (hs : w'.snapshots = w.snapshots.upsert d)
    (hr : w'.rooms = w.rooms.insert room.id room) : w'.Backed := by
  intro id r hlookup
  rw [hr] at hlookup
  rcases lookup_insert_cases hlookup with ⟨rfl, rfl⟩ | ⟨hne, hlookup⟩
  · refine ⟨rfl, d, ?_, hid, UInt64.le_of_eq hversion⟩
    rw [hs]
    exact mem_upsert_snapshot.mpr (.inl rfl)
  · obtain ⟨hrid, d', hd', hid', hle⟩ := h id r hlookup
    refine ⟨hrid, d', ?_, hid', hle⟩
    rw [hs]
    exact mem_upsert_snapshot.mpr (.inr ⟨hd', fun heq => hne (by rw [← hid', ← heq, hid])⟩)

theorem backed_insert {room : Room} {d : RoomSnapshotDocument} (h : w.Backed) (hd : d ∈ w.snapshots) (hid : d.roomID = room.id)
    (hle : d.stateVersion ≤ room.stateVersion) : World.Backed { w with rooms := w.rooms.insert room.id room } := by
  intro id r hlookup
  rcases lookup_insert_cases hlookup with ⟨rfl, rfl⟩ | ⟨-, hlookup⟩
  · exact ⟨rfl, d, hd, hid, hle⟩
  · exact h id r hlookup

theorem advanceTick_stores {room next : Room} (hadv : room.advanceTick e.now = .ok next) (hsave : w.save e next = .ok w') :
    next.id = room.id ∧ room.stateVersion < next.stateVersion := by
  obtain ⟨hid, hversion, -⟩ := advanceTick_ok hadv
  obtain ⟨hne, -⟩ := save_ok hsave
  rw [hversion] at hne ⊢
  exact ⟨hid, version_succ hne⟩

theorem backed_after (h : w.Backed) (op : Operation) (hop : op.Modest) : (w.after op).Backed := by
  cases op with
  | create room e =>
    unfold World.after World.answer
    dsimp only
    split
    · exact h
    · rename_i w₁ hok
      obtain ⟨-, -, rfl⟩ := create_ok hok
      exact backed_put h (d := storedDocument e room) rfl rfl rfl rfl
  | mutate roomID callback e =>
    rcases hm : w.mutate e roomID callback with ⟨r, w'⟩
    show (w.mutate e roomID callback).2.Backed
    rw [hm]
    rcases mutate_inv hm with ⟨-, rfl⟩ | ⟨previous, room, hp, ⟨err, hcall, -, rfl⟩ | ⟨next, w₁, hcall, hadv, hsave, -, rfl⟩⟩
    · exact h
    all_goals
      obtain ⟨hpid, d₀, hd₀, hid₀, hle₀⟩ := h roomID previous hp
      have hroom := hop previous
      rw [hcall] at hroom
      obtain ⟨hid, hle⟩ := hroom
      have hrid : room.id = roomID := hid.trans hpid
    · rw [← hrid]
      exact backed_insert h hd₀ (hid₀.trans hrid.symm) (UInt64.le_trans hle₀ hle)
    · obtain ⟨hnid, -⟩ := advanceTick_stores hadv hsave
      have hw₁ := (save_ok hsave).2
      refine backed_put h (d := storedDocument e next) rfl rfl ?_ ?_
      · rw [hw₁]
        rfl
      · rw [hw₁, hnid, hrid]
        rfl
  | restore playerID es =>
    rcases restore_inv (w := w) playerID es with heq | ⟨d, hd, room, hdecode, heq⟩
    · rw [heq]
      exact h
    · rw [heq]
      exact backed_insert h hd (by rw [decode_ok hdecode]) (UInt64.le_of_eq (by rw [decode_ok hdecode]))
  | restart => exact fun id r hlookup => by cases hlookup

theorem guarded_of_recalled (h : w.Backed) {op : Operation} (hop : op.Modest) (hr : w.Recalled op) : w.Guarded op := by
  cases op with
  | create room e => exact hr
  | mutate roomID callback e =>
    intro _ previous room next w' hp hcall hadv hsave d hd hid
    obtain ⟨hpid, d₀, hd₀, hid₀, hle₀⟩ := h roomID previous hp
    have hroom := hop previous
    rw [hcall] at hroom
    obtain ⟨hnid, hlt⟩ := advanceTick_stores hadv hsave
    have hsame : d = d₀ := by
      refine Coll.eq_of_clash hd hd₀ ?_
      rw [roomSnapshotIndexes, Index.on_clash, hid, hid₀, hnid, hroom.1, hpid]
    rw [hsame]
    exact UInt64.le_of_lt (UInt64.lt_of_le_of_lt (UInt64.le_trans hle₀ hroom.2) hlt)
  | _ => trivial

theorem throughout_guarded : ∀ (ops : List Operation) {w : World}, w.Backed → (∀ op ∈ ops, op.Modest) →
    w.Throughout World.Recalled ops → w.Throughout World.Guarded ops
  | [], _, _, _, _ => trivial
  | op :: ops, w, h, hmodest, hr => by
    have hop := hmodest op (List.mem_cons_self ..)
    exact ⟨guarded_of_recalled h hop hr.1,
      throughout_guarded ops (backed_after h op hop) (fun op' hop' => hmodest op' (List.mem_cons_of_mem _ hop')) hr.2⟩

end

/-- The stored versions never decrease and `Create` refuses every room that was
stored before, in each operation of a run, exactly if no `Create` of a stored
room finds it missing in memory and no `Mutate` stores an older room. The second
never happens if the callbacks leave ID and version alone. -/
theorem stored_versions_iff (snapshots : Coll roomSnapshotIndexes) (ops : List Operation) :
    let w : World := ⟨∅, ∅, snapshots⟩
    (w.Throughout World.Lawful ops ↔ w.Throughout World.Guarded ops) ∧
      ((∀ op ∈ ops, op.Modest) → w.Throughout World.Recalled ops → w.Throughout World.Guarded ops) :=
  ⟨throughout_congr lawful_iff ops _, throughout_guarded ops fun _ _ hlookup => by cases hlookup⟩

theorem restart_forgets_room :
    let w := [Operation.create room102 {}, .mutate 102 (putPlayer (player1 90)) {}, .restart].foldl World.after
      ⟨∅, ∅, .empty⟩
    let again := w.after (.create room102 {})
    w.snapshots.docs.map (fun d => (d.roomID, d.stateVersion)) = [(102, 2)] ∧
      (w.answer {} (.create room102)).1 = .ok () ∧
      again.snapshots.docs.map (fun d => (d.roomID, d.stateVersion)) = [(102, 1)] ∧
      ¬ w.Lawful (.create room102 {}) := by
  intro w again
  refine ⟨by decide, by rfl, by decide, fun h => ?_⟩
  have hdup := h.2 room102 {} rfl (by decide)
  cases hdup

end GameServer.Battle
