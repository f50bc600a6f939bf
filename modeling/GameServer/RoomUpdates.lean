import GameServer.BattleSound
import GameServer.Trace
import Mathlib.Logic.Relation

/-!
# Rooms set back by a restore

`RestoreByPlayerID` reads the repository outside the lock and puts what it read
into memory afterwards. No update of a room is lost as long as what it puts there
is not older than the room in memory; when it is older, the version decreases.
-/

namespace GameServer.Battle

open Pool (Past Step Visited)

def Call.Updates : Call → Prop
  | .create _ => False
  | .mutate _ callback => KeepsVersion callback
  | .restore _ _ _ => True

/-! ## Lost updates -/

section
variable (calls : List Call)

def MutatesRoom (id : UInt64) (i : Nat) : Prop := ∃ callback, calls[i]? = some (.mutate id callback)

def Mutated (id : UInt64) (m : Step World) : Prop :=
  ∃ callback e, calls[m.pid]? = some (.mutate id callback) ∧ m.old.mutate e id callback = (.ok (), m.new)

def Follows (steps : List (Step World)) (id : UInt64) (a b : Room) : Prop :=
  ∃ m ∈ steps, Mutated calls id m ∧ m.new.rooms.lookup id = some b ∧
    ∃ a', m.old.rooms.lookup id = some a' ∧ a'.Agrees a

def Contains (steps : List (Step World)) (id : UInt64) (r r' : Room) : Prop :=
  ∃ b, Relation.ReflTransGen (Follows calls steps id) r b ∧ r'.Agrees b

structure NoLostUpdate (s : State) (sched : List (Nat × Env)) : Prop where
  rooms : ∀ m ∈ Pool.trace exec s sched, ∀ id r, m.old.rooms.lookup id = some r →
    ∃ r', m.new.rooms.lookup id = some r' ∧ r.stateVersion ≤ r'.stateVersion
  snapshots : ∀ m ∈ Pool.trace exec s sched, ∀ d ∈ m.old.snapshots,
    ∃ d' ∈ m.new.snapshots, d'.roomID = d.roomID ∧ d.stateVersion ≤ d'.stateVersion
  contained : ∀ before a mid b after, sched = before ++ a :: (mid ++ b :: after) →
    let s₁ := Pool.run exec s before
    let s₂ := Pool.step exec s₁ a
    let s₃ := Pool.run exec s₂ mid
    ∀ id r r', Mutated calls id ⟨a.1, s₁.world, s₂.world⟩ → s₂.world.rooms.lookup id = some r →
      MutatesRoom calls id b.1 → s₃.world.rooms.lookup id = some r' → Contains calls (Pool.trace exec s₂ mid) id r r'

end

def Cmd.fresh (w : World) : Cmd → Bool
  | .load room => (w.rooms.lookup room.id).all fun r => r.stateVersion ≤ room.stateVersion
  | _ => true

theorem le_of_fresh {w : World} {room r : Room} (h : (Cmd.load room).fresh w = true)
    (hr : w.rooms.lookup room.id = some r) : r.stateVersion ≤ room.stateVersion := by
  simpa [Cmd.fresh, hr] using h

namespace Updates

section
variable {calls : List Call} {id : UInt64} {r r' : Room} {steps : List (Step World)} {m : Step World}

theorem contains_refl (h : r'.Agrees r) : Contains calls steps id r r' := ⟨r, .refl, h⟩

theorem contains_mono {steps' : List (Step World)} (h : Contains calls steps id r r') (hsub : ∀ m ∈ steps, m ∈ steps') :
    Contains calls steps' id r r' := by
  obtain ⟨b, hb, hr'⟩ := h
  refine ⟨b, Relation.ReflTransGen.mono (fun x y hxy => ?_) _ _ hb, hr'⟩
  obtain ⟨m, hm, hxy⟩ := hxy
  exact ⟨m, hsub m hm, hxy⟩

theorem contains_push (h : Contains calls steps id r r') (m : Step World) : Contains calls (m :: steps) id r r' :=
  contains_mono h fun _ hm => List.mem_cons_of_mem _ hm

theorem contains_mutate (h : Contains calls steps id r r') (hm : Mutated calls id m)
    (hold : m.old.rooms.lookup id = some r') {next next' : Room} (hnew : m.new.rooms.lookup id = some next)
    (hnext : next'.Agrees next) : Contains calls (m :: steps) id r next' := by
  obtain ⟨b, hb, hr'⟩ := contains_push h m
  exact ⟨next, hb.tail ⟨m, List.mem_cons_self .., hm, hnew, r', hold, hr'⟩, hnext⟩

theorem mutated_inv (hcalls : ∀ call ∈ calls, call.Updates) (hm : Mutated calls id m)
    (hown : ∀ id r, m.old.rooms.lookup id = some r → r.id = id ∧ r.Keyed) :
    ∃ previous next d, m.old.rooms.lookup id = some previous ∧ next.id = id ∧ next.Keyed ∧
      previous.stateVersion < next.stateVersion ∧ SnapshotOf d next ∧
        m.new.rooms = m.old.rooms.insert id next ∧ m.new.snapshots = m.old.snapshots.upsert d := by
  obtain ⟨callback, e, hcall, hx⟩ := hm
  have hf : KeepsVersion callback := hcalls _ (List.mem_of_getElem? hcall)
  rcases mutate_inv hx with ⟨⟨err, herr⟩, -⟩ | ⟨previous, room, hp, ⟨err, -, herr, -⟩ | ⟨next, w₁, hc, hadv, hsave, -, hw⟩⟩
  · cases herr
  · cases herr
  · obtain ⟨hid, hk⟩ := hown id previous hp
    obtain ⟨hkeyed, hid', hlt, d, hd, rfl⟩ := mutated_ok hf hk hc hadv hsave
    rw [hw]
    exact ⟨previous, next, d, hp, hid'.trans hid, hkeyed, hlt, hd, rfl, rfl⟩

theorem not_mutated (hcalls : ∀ call ∈ calls, call.Updates)
    (hown : ∀ id r, m.old.rooms.lookup id = some r → r.id = id ∧ r.Keyed)
    (hsame : ∀ r r', m.old.rooms.lookup id = some r → m.new.rooms.lookup id = some r' →
      r'.stateVersion = r.stateVersion) : ¬ Mutated calls id m := by
  intro hm
  obtain ⟨previous, next, d, hp, -, -, hlt, -, hrooms, -⟩ := mutated_inv hcalls hm hown
  have hnext : m.new.rooms.lookup id = some next := by rw [hrooms, AList.lookup_insert]
  exact UInt64.ne_of_lt hlt (hsame previous next hp hnext).symm

end

/-! ## Invariant -/

section
variable (calls : List Call)

structure Inv (p : Past World) : Prop where
  own : ∀ id r, p.1.rooms.lookup id = some r → r.id = id ∧ r.Keyed
  stored : ∀ id r, p.1.rooms.lookup id = some r → ∃ d ∈ p.1.snapshots, d.roomID = id ∧ d.stateVersion = r.stateVersion
  older : ∀ u, Visited p u → ∀ d ∈ u.snapshots,
    d ∈ p.1.snapshots ∨ ∃ r, p.1.rooms.lookup d.roomID = some r ∧ d.stateVersion < r.stateVersion
  rooms : ∀ m ∈ p.2, ∀ id r, m.old.rooms.lookup id = some r →
    ∃ r', m.new.rooms.lookup id = some r' ∧ r.stateVersion ≤ r'.stateVersion
  snapshots : ∀ m ∈ p.2, ∀ d ∈ m.old.snapshots,
    ∃ d' ∈ m.new.snapshots, d'.roomID = d.roomID ∧ d.stateVersion ≤ d'.stateVersion
  kept : ∀ log m before id r, p.2 = log ++ m :: before → Mutated calls id m → m.new.rooms.lookup id = some r →
    (∃ r', p.1.rooms.lookup id = some r' ∧ Contains calls log id r r') ∧
      ∃ d ∈ p.1.snapshots, d.roomID = id ∧ ∀ room, roomSnapshotDomainFromDocument d = .ok room →
        Contains calls log id r room

variable {calls} {p : Past World} {i : Nat} {w : World}

theorem inv_start (snapshots : Coll roomSnapshotIndexes) : Inv calls (⟨∅, ∅, snapshots⟩, []) := by
  refine ⟨fun id r h => (nomatch h), fun id r h => (nomatch h), fun u hu d hd => ?_, fun m hm => (nomatch hm),
    fun m hm => (nomatch hm), fun log m before id r h => ?_⟩
  · rcases hu with rfl | ⟨m, hm, -⟩
    · exact .inl hd
    · cases hm
  · simp at h

theorem Inv.same (hcalls : ∀ call ∈ calls, call.Updates) (h : Inv calls p) (i : Nat) :
    Inv calls (p.1, ⟨i, p.1, p.1⟩ :: p.2) := by
  refine ⟨h.own, h.stored, fun u hu d hd => ?_, ?_, ?_, ?_⟩
  · rcases Pool.visited_step hu with rfl | hu
    · exact .inl hd
    · exact h.older u hu d hd
  · exact List.forall_mem_cons.mpr ⟨fun id r hr => ⟨r, hr, UInt64.le_refl _⟩, h.rooms⟩
  · exact List.forall_mem_cons.mpr ⟨fun d hd => ⟨d, hd, rfl, UInt64.le_refl _⟩, h.snapshots⟩
  · intro log m before id r hlog hm hr
    rcases List.cons_eq_append_iff.mp hlog with ⟨-, heq⟩ | ⟨log', rfl, heq⟩
    · cases heq
      refine absurd hm (not_mutated hcalls h.own fun r r' hr hr' => ?_)
      obtain rfl := Option.some.inj (hr.symm.trans hr')
      rfl
    · obtain ⟨⟨r', hr', hc⟩, d, hd, hid, hdec⟩ := h.kept log' m before id r heq hm hr
      exact ⟨⟨r', hr', contains_push hc _⟩, d, hd, hid, fun room hroom => contains_push (hdec room hroom) _⟩

theorem Inv.put (h : Inv calls p) {room : Room} {d : RoomSnapshotDocument} (hk : room.Keyed)
    (hrooms : w.rooms = p.1.rooms.insert room.id room)
    (hle : ∀ r, p.1.rooms.lookup room.id = some r → r.stateVersion ≤ room.stateVersion)
    (hdocs : ∀ x, x.roomID ≠ room.id → (x ∈ w.snapshots ↔ x ∈ p.1.snapshots))
    (hd : d ∈ w.snapshots) (hdid : d.roomID = room.id) (hdv : d.stateVersion = room.stateVersion)
    (hrest : ∀ x ∈ p.1.snapshots, x.roomID = room.id → x ∈ w.snapshots ∨ x.stateVersion < room.stateVersion)
    (hself : ∀ id r, Mutated calls id ⟨i, p.1, w⟩ → w.rooms.lookup id = some r → id = room.id ∧ Stores d r)
    (hkept : ∀ log r r', p.1.rooms.lookup room.id = some r' → Contains calls log room.id r r' →
      (∀ x ∈ p.1.snapshots, x.roomID = room.id → ∀ room', roomSnapshotDomainFromDocument x = .ok room' →
        Contains calls log room.id r room') →
      Contains calls (⟨i, p.1, w⟩ :: log) room.id r room ∧ ∀ room', roomSnapshotDomainFromDocument d = .ok room' →
        Contains calls (⟨i, p.1, w⟩ :: log) room.id r room') :
    Inv calls (w, ⟨i, p.1, w⟩ :: p.2) := by
  have hroom : w.rooms.lookup room.id = some room := by rw [hrooms, AList.lookup_insert]
  have hother : ∀ id, id ≠ room.id → w.rooms.lookup id = p.1.rooms.lookup id := by
    intro id hne
    rw [hrooms, AList.lookup_insert_ne hne]
  refine ⟨fun id r hr => ?_, fun id r hr => ?_, fun u hu x hx => ?_, List.forall_mem_cons.mpr ⟨fun id r hr => ?_, h.rooms⟩,
    List.forall_mem_cons.mpr ⟨fun x hx => ?_, h.snapshots⟩, fun log m before id r hlog hm hr => ?_⟩
  · rw [hrooms] at hr
    rcases lookup_insert_cases hr with ⟨rfl, rfl⟩ | ⟨-, hr⟩
    · exact ⟨rfl, hk⟩
    · exact h.own id r hr
  · rw [hrooms] at hr
    rcases lookup_insert_cases hr with ⟨rfl, rfl⟩ | ⟨hne, hr⟩
    · exact ⟨d, hd, hdid, hdv⟩
    · obtain ⟨x, hx, hxid, hxv⟩ := h.stored id r hr
      exact ⟨x, (hdocs x (hxid ▸ hne)).mpr hx, hxid, hxv⟩
  · rcases Pool.visited_step hu with rfl | hu
    · exact .inl hx
    by_cases hxid : x.roomID = room.id
    · rw [hxid, hroom]
      rcases h.older u hu x hx with hx | ⟨r, hr, hlt⟩
      · exact (hrest x hx hxid).imp id fun hlt => ⟨room, rfl, hlt⟩
      · exact .inr ⟨room, rfl, UInt64.lt_of_lt_of_le hlt (hle r (hxid ▸ hr))⟩
    · rw [hother _ hxid, hdocs x hxid]
      exact h.older u hu x hx
  · by_cases hid : id = room.id
    · subst hid
      exact ⟨room, hroom, hle r hr⟩
    · exact ⟨r, (hother id hid).trans hr, UInt64.le_refl _⟩
  · show ∃ d' ∈ w.snapshots, d'.roomID = x.roomID ∧ x.stateVersion ≤ d'.stateVersion
    by_cases hxid : x.roomID = room.id
    · rcases hrest x hx hxid with hxw | hlt
      · exact ⟨x, hxw, rfl, UInt64.le_refl _⟩
      · exact ⟨d, hd, hdid.trans hxid.symm, hdv ▸ UInt64.le_of_lt hlt⟩
    · exact ⟨x, (hdocs x hxid).mpr hx, rfl, UInt64.le_refl _⟩
  · rcases List.cons_eq_append_iff.mp hlog with ⟨rfl, heq⟩ | ⟨log', rfl, heq⟩
    · cases heq
      obtain ⟨rfl, hs⟩ := hself id r hm hr
      exact ⟨⟨r, hr, contains_refl .rfl⟩, d, hd, hdid, fun room' hroom' => contains_refl (hs room' hroom')⟩
    · obtain ⟨⟨r', hr', hc⟩, x, hx, hxid, hdec⟩ := h.kept log' m before id r heq hm hr
      by_cases hid : id = room.id
      · subst hid
        obtain ⟨hmem, hdoc⟩ := hkept log' r r' hr' hc fun y hy hyid => by
          rw [Coll.eq_of_clash hy hx (by simp [roomSnapshotIndexes, hyid, hxid])]
          exact hdec
        exact ⟨⟨room, hroom, hmem⟩, d, hd, hdid, hdoc⟩
      · exact ⟨⟨r', (hother id hid).trans hr', contains_push hc _⟩, x, (hdocs x (hxid ▸ hid)).mpr hx, hxid,
          fun room' hroom' => contains_push (hdec room' hroom') _⟩

theorem inv_mutate (hcalls : ∀ call ∈ calls, call.Updates) (h : Inv calls p) {id : UInt64} {callback : Callback} {e : Env}
    {r : Except GoErr Unit} (hcall : calls[i]? = some (.mutate id callback))
    (hx : p.1.mutate e id callback = (r, w)) : Inv calls (w, ⟨i, p.1, w⟩ :: p.2) := by
  have hf : KeepsVersion callback := hcalls _ (List.mem_of_getElem? hcall)
  rcases mutate_inv hx with ⟨-, rfl⟩ | ⟨previous, room, hp, ⟨err, hc, -, hw⟩ | ⟨next, w₁, hc, hadv, hsave, rfl, hw⟩⟩
  · exact h.same hcalls i
  · -- the callback failed, and the room is put back as it was
    obtain ⟨rfl, hk⟩ := h.own id previous hp
    obtain rfl : room = previous := by
      have := hf.failed previous err (by rw [hc])
      rwa [hc] at this
    obtain ⟨d, hd, hdid, hdv⟩ := h.stored _ room hp
    have hlookup : w.rooms.lookup room.id = some room := by rw [hw, AList.lookup_insert]
    refine h.put (d := d) hk (by rw [hw]) (fun r hr => ?_) (fun x _ => by rw [hw]) (by rw [hw]; exact hd) hdid
      hdv (fun x hx _ => .inl (by rw [hw]; exact hx)) (fun id' r hm hr => ?_) fun log r r' hr' hcont hdocs => ?_
    · rw [Option.some.inj (hr.symm.trans hp)]
      exact UInt64.le_refl _
    · have heq : id' = room.id := by
        obtain ⟨callback', -, hcall', -⟩ := hm
        cases hcall.symm.trans hcall'
        rfl
      subst heq
      refine absurd hm (not_mutated hcalls h.own fun r r' hr hr' => ?_)
      rw [Option.some.inj (hr.symm.trans hp), Option.some.inj (hr'.symm.trans hlookup)]
    · rw [Option.some.inj (hr'.symm.trans hp)] at hcont
      exact ⟨contains_push hcont _,
        fun room' hroom' => contains_push (hdocs d hd hdid room' hroom') _⟩
  · have hm : Mutated calls id ⟨i, p.1, w⟩ := ⟨callback, e, hcall, hx⟩
    obtain ⟨previous', next', d, hp', hid, hk, hlt, hd, hrooms, hsnap⟩ := mutated_inv hcalls hm h.own
    subst hid
    simp only at hp' hrooms hsnap
    have hlookup : w.rooms.lookup next'.id = some next' := by rw [hrooms, AList.lookup_insert]
    have hmem : ∀ x, x ∈ w.snapshots ↔ x = d ∨ (x ∈ p.1.snapshots ∧ x.roomID ≠ next'.id) := by
      intro x
      have hclash : roomSnapshotIndexes.clash d x = false ↔ x.roomID ≠ next'.id := by
        rw [← Bool.not_eq_true, roomSnapshotIndexes, Index.on_clash, hd.roomID, ne_comm]
      rw [hsnap, Coll.mem_upsert, hclash]
    refine h.put (d := d) hk hrooms (fun r hr => ?_) (fun x hne => ?_) ((hmem d).mpr (.inl rfl)) hd.roomID hd.stateVersion
      (fun x hx hxid => .inr ?_) (fun id' r hm' hr => ?_) fun log r r' hr' hcont _ => ?_
    · obtain rfl := Option.some.inj (hp'.symm.trans hr)
      exact UInt64.le_of_lt hlt
    · rw [hmem]
      constructor
      · rintro (rfl | hx)
        · exact absurd hd.roomID hne
        · exact hx.1
      · exact fun hx => .inr ⟨hx, hne⟩
    · obtain ⟨y, hy, hyid, hyv⟩ := h.stored _ previous' hp'
      rw [Coll.eq_of_clash hx hy (by simp [roomSnapshotIndexes, hxid, hyid]), hyv]
      exact hlt
    · have heq : id' = next'.id := by
        obtain ⟨callback', -, hcall', -⟩ := hm'
        cases hcall.symm.trans hcall'
        rfl
      subst heq
      obtain rfl := Option.some.inj (hlookup.symm.trans hr)
      exact ⟨rfl, hd.stores⟩
    · exact ⟨contains_mutate hcont hm hr' hlookup .rfl,
        fun room' hroom' => contains_mutate hcont hm hr' hlookup (hd.stores room' hroom')⟩

def Read (room : Room) (p : Past World) : Prop :=
  ∃ u, Visited p u ∧ ∃ d ∈ u.snapshots, roomSnapshotDomainFromDocument d = .ok room

theorem inv_load (h : Inv calls p) {room : Room} (hread : Read room p) (hfresh : (Cmd.load room).fresh p.1 = true)
    (hi : ∀ id, ¬ MutatesRoom calls id i) (hw : w = { p.1 with rooms := p.1.rooms.insert room.id room }) :
    Inv calls (w, ⟨i, p.1, w⟩ :: p.2) := by
  obtain ⟨u, hu, d, hd, hdec⟩ := hread
  have hroom := decode_ok hdec
  have hdid : d.roomID = room.id := by rw [hroom]
  have hdv : d.stateVersion = room.stateVersion := by rw [hroom]
  have hcurrent : d ∈ p.1.snapshots := by
    rcases h.older u hu d hd with hd | ⟨r, hr, hlt⟩
    · exact hd
    · rw [hdid] at hr
      rw [hdv] at hlt
      exact absurd hlt (UInt64.not_lt.mpr (le_of_fresh hfresh hr))
  subst hw
  refine h.put (d := d) (keyed_of_decode hdec) rfl (fun r hr => le_of_fresh hfresh hr) (fun x _ => .rfl) hcurrent hdid hdv
    (fun x hx _ => .inl hx) (fun id r hm _ => ?_) fun log r r' hr' hcont hdocs => ?_
  · obtain ⟨callback, -, hcall, -⟩ := hm
    exact absurd ⟨callback, hcall⟩ (hi id)
  · exact ⟨contains_push (hdocs d hcurrent hdid room hdec) _,
      fun room' hroom' => contains_push (hdocs d hcurrent hdid room' hroom') _⟩

end

/-! ## Handlers -/

section
variable (calls : List Call)

def Rely (_ : Nat) (p p' : Past World) : Prop := ∀ u, Visited p u → Visited p' u

abbrev Sound {α : Type} (i : Nat) (prog : Prog Ans α) (p : Past World) : Prop :=
  Pool.Safe (Pool.record exec) (fun _ _ w c => c.fresh w.1 = true) (Inv calls) Rely i (fun _ _ => True) prog p

variable {calls} {i : Nat} {p₀ : Past World}

theorem sound_call {α : Type} {c : Cmd} {k : Ans c → Prog Ans α}
    (h : ∀ e p r w, Rely i p₀ p → Inv calls p → c.fresh p.1 = true → p.1.answer e c = (r, w) →
      Inv calls (w, ⟨i, p.1, w⟩ :: p.2) ∧ Sound calls i (k r) (w, ⟨i, p.1, w⟩ :: p.2)) :
    Sound calls i (.call c k) p₀ := by
  intro e p r p' hr hi hg hx
  obtain ⟨w, hexec, rfl⟩ := Pool.record_eq_some hx
  obtain ⟨hinv, hk⟩ := h e p r w hr hi hg (Option.some.inj hexec)
  exact ⟨hinv, fun j _ u hu => hu.push i w, hk⟩

theorem sound_answerSince (hcalls : ∀ call ∈ calls, call.Updates) (v : UInt64) (allow : Bool) (room : Room) :
    Sound calls i (answerSince v allow room) p₀ := by
  unfold answerSince
  split
  · trivial
  split
  · simp only [perform, Prog.perform_bind]
    refine sound_call fun e p r w _ hi _ hx => ?_
    cases hx
    refine ⟨hi.same hcalls i, ?_⟩
    dsimp only
    split <;> trivial
  · trivial

theorem read_of_findByPlayerID {p : Past World} {e : Env} {playerID : String} {room : Room}
    (h : p.1.findByPlayerID e playerID = .ok room) : Read room p := by
  unfold World.findByPlayerID at h
  split at h
  · cases h
  split at h
  · cases h
  simp only at h
  split at h
  · cases h
  · rename_i d hd
    have hmem := List.argmax_mem hd
    exact ⟨p.1, .inl rfl, d, mem_shuffle.mp (List.mem_of_mem_filter hmem), h⟩

theorem sound_handler (hcalls : ∀ call ∈ calls, call.Updates) {call : Call} (hcall : calls[i]? = some call) :
    Sound calls i call.handler p₀ := by
  cases call with
  | create room => exact (hcalls _ (List.mem_of_getElem? hcall)).elim
  | mutate id callback =>
    refine sound_call fun e p r w _ hi _ hx => ⟨inv_mutate hcalls hi hcall hx, ?_⟩
    trivial
  | restore playerID v allow =>
    have hnot : ∀ id, ¬ MutatesRoom calls id i := by
      intro id hm
      obtain ⟨callback, hm⟩ := hm
      cases hcall.symm.trans hm
    simp only [Call.handler, restoreByPlayerIDSince, restoreByPlayerID]
    split
    · trivial
    simp only [perform, Prog.perform_bind, Prog.call_bind]
    refine sound_call fun e p r w _ hi _ hx => ?_
    cases hx
    refine ⟨hi.same hcalls i, ?_⟩
    split
    · exact sound_answerSince hcalls v allow _
    · simp only [Prog.call_bind]
      refine sound_call fun e p r w _ hi _ hx => ?_
      obtain ⟨hr, rfl⟩ := Prod.mk.inj hx
      refine ⟨hi.same hcalls i, ?_⟩
      cases r with
      | error err => trivial
      | ok room =>
        have hread := read_of_findByPlayerID hr
        refine sound_call fun e q r w hrely hq hfresh hx => ?_
        obtain ⟨u, hu, hdoc⟩ := hread
        have hread : Read room q := ⟨u, hrely u (hu.push i _), hdoc⟩
        exact ⟨inv_load hq hread hfresh hnot (Prod.mk.inj hx).2.symm, sound_answerSince hcalls v allow room⟩

theorem sound_procs (hcalls : ∀ call ∈ calls, call.Updates) :
    ∀ i prog, (calls.map Call.handler)[i]? = some prog → Sound calls i prog p₀ :=
  Pool.forall_map fun _ _ hcall => sound_handler hcalls hcall

end

end Updates

/-! ## Every run -/

/-- No update is lost in a run if and only if no restore puts a room in the place
of a newer version of it. -/
theorem no_lost_update_iff (snapshots : Coll roomSnapshotIndexes) (calls : List Call)
    (hcalls : ∀ call ∈ calls, call.Updates) (sched : List (Nat × Env)) :
    NoLostUpdate calls (State.init snapshots calls) sched ↔
      Pool.Along exec (Pool.Issues fun _ _ w c => c.fresh w = true) (State.init snapshots calls) sched := by
  have hrefl : ∀ i p, Updates.Rely i p p := fun _ _ _ hu => hu
  have htrans : ∀ i a b c, Updates.Rely i a b → Updates.Rely i b c → Updates.Rely i a c := fun _ _ _ _ h h' u hu => h' u (h u hu)
  constructor
  · intro h
    refine Pool.along_of_split exec sched _ fun before a after hsplit c k hp => ?_
    cases c with
    | load room =>
      subst hsplit
      have hrooms := h.rooms _ (Pool.mem_trace_append before after a _) room.id
      cases hr : (Pool.run exec (State.init snapshots calls) before).world.rooms.lookup room.id with
      | none => simp [Cmd.fresh, hr]
      | some r =>
        obtain ⟨r', hr', hle⟩ := hrooms r hr
        have hstep : (Pool.run exec (State.init snapshots calls) (before ++ [a])).world.rooms.lookup room.id = some room := by
          rw [Pool.run_append, Pool.run_cons, Pool.run_nil, (Pool.step_of_exec exec hp rfl).1]
          exact AList.lookup_insert _
        obtain rfl := Option.some.inj (hstep.symm.trans hr')
        simpa [Cmd.fresh, hr] using hle
    | _ => rfl
  · intro hG
    obtain ⟨t, hrec, hgood, -, -, hsup⟩ := Pool.safe_trace hrefl htrans (Updates.inv_start snapshots) (Updates.sound_procs hcalls) hG
    refine ⟨fun m hm id r hr => ?_, fun m hm d hd => ?_, ?_⟩
    · rcases hsup m hm with heq | hm
      · exact ⟨r, heq ▸ hr, UInt64.le_refl _⟩
      · exact hgood.world.rooms m hm id r hr
    · rcases hsup m hm with heq | hm
      · exact ⟨d, heq ▸ hd, rfl, UInt64.le_refl _⟩
      · exact hgood.world.snapshots m hm d hd
    · intro before a mid b after hsplit s₁ s₂ s₃ id r r' hm hr _ hr'
      have hG' : Pool.Along exec (Pool.Issues fun _ _ w c => c.fresh w = true) (State.init snapshots calls)
          (before ++ a :: mid) := by
        have hsplit' : sched = (before ++ a :: mid) ++ b :: after := by simp [hsplit]
        rw [hsplit'] at hG
        exact ((Pool.along_append exec _ _ _).mp hG).1
      obtain ⟨q, hq, hqw, -⟩ := Pool.safe_past hrefl htrans (Updates.inv_start snapshots)
        (Updates.sound_procs hcalls) ((Pool.along_append exec _ _ _).mp hG').1
      -- the `Mutate` has changed the world, so it is among the steps recorded
      have hne : s₂.world ≠ s₁.world := by
        intro heq
        refine Updates.not_mutated hcalls (m := ⟨a.1, s₁.world, s₂.world⟩) (hqw ▸ hq.own) (fun x y hx hy => ?_) hm
        rw [show (Step.mk a.1 s₁.world s₂.world).new = s₁.world from heq] at hy
        rw [Option.some.inj (hx.symm.trans hy)]
      obtain ⟨p, log, past, hp, hpw, hlog, hsub⟩ := Pool.safe_since hrefl htrans
        (Updates.inv_start snapshots) (Updates.sound_procs hcalls) hG' hne
      obtain ⟨⟨x, hx, hcont⟩, -⟩ := hp.kept log _ past id r hlog hm hr
      have hworld : p.1 = s₃.world := by rw [hpw, Pool.run_append]; rfl
      rw [hworld] at hx
      obtain rfl := Option.some.inj (hx.symm.trans hr')
      exact Updates.contains_mono hcont hsub

def storedRoom : RoomSnapshotDocument := ⟨102, 0, 1, "created", [player1 100, ⟨"player-2", 100, 0, 0⟩], 1000000⟩

def storedRooms : Coll roomSnapshotIndexes := Coll.empty.upsert storedRoom

def comeBack : List Call :=
  [.restore "player-1" 0 false, .restore "player-2" 0 false, .mutate 102 (putPlayer (player1 90)),
    .mutate 102 (putPlayer (player1 80))]

theorem comeBack_updates : ∀ call ∈ comeBack, call.Updates := by
  intro call hcall
  simp only [comeBack, List.mem_cons, List.not_mem_nil, or_false] at hcall
  rcases hcall with rfl | rfl | rfl | rfl
  · trivial
  · trivial
  · exact (putPlayer_playersOnly _).toKeepsVersion
  · exact (putPlayer_playersOnly _).toKeepsVersion

theorem no_lost_update_after_restores :
    NoLostUpdate comeBack (State.init storedRooms comeBack) (Pool.inOrder [0, 0, 1, 1, 1, 0, 2, 3]) :=
  (no_lost_update_iff storedRooms comeBack comeBack_updates _).mpr (by decide)

/-- The first hit returns `nil` and is undone by the restore that had read the
room before it: the version in memory goes from 2 back to 1, and the second hit
starts from there. -/
theorem restore_undoes_mutate :
    let s := fun order => Pool.run exec (State.init storedRooms comeBack) (Pool.inOrder order)
    (s [0, 0, 1, 1, 1, 2]).answer 2 = some (.ok .done) ∧
      ((s [0, 0, 1, 1, 1, 2]).world.rooms.lookup 102).map (fun r => (r.stateVersion, r.players.lookup "player-1")) =
        some (2, some (player1 90)) ∧
      ((s [0, 0, 1, 1, 1, 2, 0]).world.rooms.lookup 102).map (fun r => (r.stateVersion, r.players.lookup "player-1")) =
        some (1, some (player1 100)) ∧
      (s [0, 0, 1, 1, 1, 2, 0, 3]).answer 3 = some (.ok .done) ∧
      ((s [0, 0, 1, 1, 1, 2, 0, 3]).world.rooms.lookup 102).map (·.stateVersion) = some 2 ∧
      ¬ NoLostUpdate comeBack (State.init storedRooms comeBack) (Pool.inOrder [0, 0, 1, 1, 1, 2, 0, 3]) := by
  refine ⟨by decide, by decide, by decide, by decide, by decide, fun h => ?_⟩
  obtain ⟨r', hr', hle⟩ := h.rooms _ (Pool.mem_trace_append (Pool.inOrder [0, 0, 1, 1, 1, 2]) _ _ _) 102 _ rfl
  obtain rfl := Option.some.inj hr'
  exact absurd hle (by decide)

end GameServer.Battle
