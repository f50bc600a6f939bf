import GameServer.LobbySound
import GameServer.Trace

/-!
# One default player per account

Requests for one account may look it up, create its player and link it all at
once, and any of these steps may fail or take effect without its answer coming
back. Whoever is answered with success names the one default player of the
account, which then has assets, a snapshot and its link, and at most one of
them is told that the player is new.
-/

namespace GameServer.Lobby

structure LossyEnv extends Env where
  applied : Bool := false

def execLossy (i : Nat) (e : LossyEnv) (w : World) (c : Cmd) : Option (Ans c × World) :=
  match e.fail, e.applied with
  | some text, true =>
    (failed text c).map (·, (World.answer { w with clock := w.clock + e.delay } c e.toEnv).2)
  | _, _ => exec i e.toEnv w c

def World.HasDefault (w : World) (accountID playerID : String) : Prop :=
  ∃ x ∈ w.players, x.isDefault = true ∧ x.accountID = accountID ∧ x.id = playerID

def World.Linked (w : World) (accountID playerID : String) : Prop :=
  ∃ ids, w.links.lookup accountID = some ids ∧ playerID ∈ ids

structure Furnished (w : World) : Prop where
  owns : ∀ x ∈ w.players, x.isDefault = true → ∃ a ∈ w.assets, a.playerID = x.id
  saved : ∀ x ∈ w.players, x.isDefault = true → ∃ d ∈ w.snapshots, d.playerID = x.id
  links : ∀ accountID ids, w.links.lookup accountID = some ids → ids.Nodup

theorem furnished_init {links : AList fun _ : String => List String} (clock : Time)
    (h : ∀ accountID ids, links.lookup accountID = some ids → ids.Nodup) : Furnished (World.init links clock) :=
  ⟨fun x hx => absurd hx (Coll.not_mem_empty x), fun x hx => absurd hx (Coll.not_mem_empty x), h⟩

namespace Ensure

/-! ## What the commands keep -/

structure Grows (w w' : World) : Prop where
  players : ∀ x ∈ w.players, x ∈ w'.players
  assets : ∀ a ∈ w.assets, ∃ b ∈ w'.assets, b.playerID = a.playerID
  snapshots : ∀ d ∈ w.snapshots, ∃ d' ∈ w'.snapshots, d'.playerID = d.playerID
  links : ∀ accountID playerID, w.Linked accountID playerID → w'.Linked accountID playerID

theorem grows_refl (w : World) : Grows w w :=
  ⟨fun _ hx => hx, fun a ha => ⟨a, ha, rfl⟩, fun d hd => ⟨d, hd, rfl⟩, fun _ _ h => h⟩

variable {w w' : World} {a : String} {i : Nat}

theorem Grows.trans {u v : World} (h : Grows u v) (h' : Grows v w) : Grows u w := by
  refine ⟨fun x hx => h'.players x (h.players x hx), fun a ha => ?_, fun d hd => ?_, fun a p hl => h'.links a p (h.links a p hl)⟩
  · obtain ⟨b, hb, hba⟩ := h.assets a ha
    obtain ⟨b', hb', hbb⟩ := h'.assets b hb
    exact ⟨b', hb', hbb.trans hba⟩
  · obtain ⟨d', hd', hdd⟩ := h.snapshots d hd
    obtain ⟨d'', hd'', hdd'⟩ := h'.snapshots d' hd'
    exact ⟨d'', hd'', hdd'.trans hdd⟩

theorem hasDefault_grow {p : String} (h : w.HasDefault a p) (hg : Grows w w') : w'.HasDefault a p := by
  obtain ⟨x, hx, hrest⟩ := h
  exact ⟨x, hg.players x hx, hrest⟩

theorem default_unique {x y : Player} (hx : x ∈ w.players) (hy : y ∈ w.players) (hxd : x.isDefault = true)
    (hyd : y.isDefault = true) (h : x.accountID = y.accountID) : x = y := by
  apply Coll.eq_of_clash hx hy
  simp [playerIndexes, Index.partialOn, hxd, hyd, h]

theorem upsert_keeps {c : Coll snapshotIndexes} (s : SnapshotDocument) {d : SnapshotDocument} (hd : d ∈ c) :
    ∃ d' ∈ c.upsert s, d'.playerID = d.playerID := by
  by_cases hs : s.playerID = d.playerID
  · exact ⟨s, Coll.mem_upsert.mpr (.inl rfl), hs⟩
  · exact ⟨d, Coll.mem_upsert.mpr (.inr ⟨hd, by simp [snapshotIndexes, Index.on, hs]⟩), rfl⟩

theorem linkPlayer_ok {p : String} (h : w.linkPlayer a p = .ok w') :
    ∃ ids, w.links.lookup a = some ids ∧
      w' = { w with links := w.links.insert a (if p ∈ ids then ids else ids ++ [p]) } := by
  unfold World.linkPlayer at h
  split at h <;> cases h
  rename_i ids hids
  exact ⟨ids, hids, rfl⟩

theorem linked_linkPlayer {p : String} (h : w.linkPlayer a p = .ok w') : w'.Linked a p := by
  obtain ⟨ids, hids, rfl⟩ := linkPlayer_ok h
  refine ⟨_, AList.lookup_insert _, ?_⟩
  by_cases hp : p ∈ ids <;> simp [hp]

theorem grows_wrote {c : Cmd} (h : Wrote w c w') : Grows w w' := by
  cases h with
  | nothing => exact grows_refl w
  | created htx =>
    obtain ⟨players, assets, hp, ha, rfl⟩ := createTx_ok htx
    exact ⟨fun x hx => (Coll.mem_insertOne hp x).mpr (.inr hx), fun a hx => ⟨a, (Coll.mem_insertOne ha a).mpr (.inr hx), rfl⟩,
      fun d hd => upsert_keeps _ hd, fun _ _ hl => hl⟩
  | saved s => exact ⟨fun _ hx => hx, fun a ha => ⟨a, ha, rfl⟩, fun d hd => upsert_keeps _ hd, fun _ _ hl => hl⟩
  | linked hlink =>
    rename_i a p
    obtain ⟨ids, hids, rfl⟩ := linkPlayer_ok hlink
    refine ⟨fun _ hx => hx, fun a ha => ⟨a, ha, rfl⟩, fun d hd => ⟨d, hd, rfl⟩, fun a' p' ⟨ids', hids', hmem⟩ => ?_⟩
    by_cases ha : a' = a
    · subst ha
      obtain rfl : ids = ids' := Option.some.inj (hids.symm.trans hids')
      refine ⟨_, AList.lookup_insert _, ?_⟩
      by_cases hp : p ∈ ids <;> simp [hp, hmem]
    · exact ⟨ids', (AList.lookup_insert_ne ha).trans hids', hmem⟩
  | settled htx =>
    rename_i s
    obtain ⟨ledger, a, b, player, -, ha, hb, -, -, rfl⟩ := settleTx_ok htx
    have hbpid : b.playerID = s.playerID := by
      rw [incAssets_playerID hb]
      exact deltaFilter_playerID (Coll.mem_of_findOne ha).2
    refine ⟨fun _ hx => hx, fun x hx => ?_, fun d hd => upsert_keeps _ hd, fun _ _ hl => hl⟩
    by_cases hs : x.playerID = s.playerID
    · exact ⟨b, (mem_settled ha hb b).mpr (.inr rfl), hbpid.trans hs.symm⟩
    · exact ⟨x, (mem_settled ha hb x).mpr (.inl ⟨hx, hs⟩), rfl⟩

theorem furnished_wrote {q : Request} {c : Cmd} (hq : Issued q c) (hw : Furnished w) (h : Wrote w c w') :
    Furnished w' := by
  have hg := grows_wrote h
  have hold : ∀ x ∈ w.players, x.isDefault = true →
      (∃ a ∈ w'.assets, a.playerID = x.id) ∧ ∃ d ∈ w'.snapshots, d.playerID = x.id := by
    intro x hx hdef
    obtain ⟨a, ha, hax⟩ := hw.owns x hx hdef
    obtain ⟨d, hd, hdx⟩ := hw.saved x hx hdef
    obtain ⟨a', ha', haa⟩ := hg.assets a ha
    obtain ⟨d', hd', hdd⟩ := hg.snapshots d hd
    exact ⟨⟨a', ha', haa.trans hax⟩, d', hd', hdd.trans hdx⟩
  cases h with
  | nothing => exact hw
  | saved => exact hq.elim
  | settled htx =>
    obtain ⟨_, _, _, _, -, -, -, -, -, rfl⟩ := settleTx_ok htx
    exact ⟨fun x hx hdef => (hold x hx hdef).1, fun x hx hdef => (hold x hx hdef).2, hw.links⟩
  | linked hlink =>
    rename_i a p
    obtain ⟨ids, hids, rfl⟩ := linkPlayer_ok hlink
    refine ⟨hw.owns, hw.saved, fun a' ids' hids' => ?_⟩
    by_cases ha : a' = a
    · subst ha
      rw [AList.lookup_insert, Option.some.injEq] at hids'
      rw [← hids']
      by_cases hp : p ∈ ids
      · simpa [hp] using hw.links _ _ hids
      · simpa [hp, List.nodup_append] using ⟨hw.links _ _ hids, fun x hx hxp => hp (hxp ▸ hx)⟩
    · rw [AList.lookup_insert_ne ha] at hids'
      exact hw.links _ _ hids'
  | created htx =>
    rename_i p a
    obtain ⟨players, assets, hp, ha, rfl⟩ := createTx_ok htx
    refine ⟨fun x hx hdef => ?_, fun x hx hdef => ?_, hw.links⟩
    · rcases (Coll.mem_insertOne hp x).mp hx with rfl | hx
      · exact ⟨a, (Coll.mem_insertOne ha a).mpr (.inl rfl), hq.1⟩
      · exact (hold x hx hdef).1
    · rcases (Coll.mem_insertOne hp x).mp hx with rfl | hx
      · exact ⟨_, Coll.mem_upsert.mpr (.inl rfl), rfl⟩
      · exact (hold x hx hdef).2

/-! ## The answers of the store -/

theorem answer_of_lossy {e : LossyEnv} {c : Cmd} {r : Ans c} (h : execLossy i e w c = some (r, w')) :
    World.answer { w with clock := w.clock + e.delay } c e.toEnv = (r, w') ∨ ∃ text, failed text c = some r := by
  unfold execLossy at h
  split at h
  · simp only [Option.map_eq_some_iff, Prod.mk.injEq] at h
    obtain ⟨r', hr', rfl, -⟩ := h
    exact .inr ⟨_, hr'⟩
  · rcases exec_inv h with h | ⟨text, -, hr, -⟩
    · exact .inl h
    · exact .inr ⟨text, hr⟩

theorem wrote_lossy {e : LossyEnv} {c : Cmd} {r : Ans c} (h : execLossy i e w c = some (r, w')) :
    Wrote { w with clock := w.clock + e.delay } c w' := by
  unfold execLossy at h
  split at h
  · simp only [Option.map_eq_some_iff, Prod.mk.injEq] at h
    obtain ⟨_, _, _, rfl⟩ := h
    exact wrote_answer _ c _
  · exact wrote_exec h

theorem lossy_find {e : LossyEnv} {x : Player} (h : execLossy i e w (.findDefaultByAccountID a) = some (.ok x, w')) :
    w'.HasDefault a x.id := by
  rcases answer_of_lossy h with h | ⟨text, h⟩
  · simp only [World.answer, World.findDefaultByAccountID, Prod.mk.injEq] at h
    obtain ⟨hr, rfl⟩ := h
    split at hr <;> cases hr
    rename_i hx
    obtain ⟨hmem, hp⟩ := Coll.mem_of_findOne hx
    simp only [Bool.and_eq_true, beq_iff_eq] at hp
    exact ⟨x, hmem, hp.2, hp.1, rfl⟩
  · cases h

theorem lossy_create {e : LossyEnv} {p : Player} {a : Assets} (hp : p.isDefault = true)
    (h : execLossy i e w (.createTx p a) = some (.ok (), w')) :
    (¬ ∃ id, w.HasDefault p.accountID id) ∧ w'.HasDefault p.accountID p.id := by
  rcases answer_of_lossy h with h | ⟨text, h⟩
  · cases htx : World.createTx { w with clock := w.clock + e.delay } p a with
    | error err => simp [World.answer, htx, commit] at h
    | ok w₁ =>
      simp only [World.answer, htx, commit, Prod.mk.injEq, true_and] at h
      subst h
      obtain ⟨players, assets, hins, -, rfl⟩ := createTx_ok htx
      refine ⟨?_, p, (Coll.mem_insertOne hins p).mpr (.inl rfl), hp, rfl, rfl⟩
      rintro ⟨id, x, hx, hdef, hacc, -⟩
      have hclash := (Coll.insertOne_eq_some hins).2 x hx
      simp [playerIndexes, Index.and, Index.on, Index.partialOn, hp, hdef, hacc] at hclash
  · cases h

theorem lossy_link {e : LossyEnv} {p : String} (h : execLossy i e w (.linkPlayer a p) = some (.ok (), w')) :
    w'.Linked a p := by
  rcases answer_of_lossy h with h | ⟨text, h⟩
  · cases hl : World.linkPlayer { w with clock := w.clock + e.delay } a p with
    | error err => simp [World.answer, hl, commit] at h
    | ok w₁ =>
      simp only [World.answer, hl, commit, Prod.mk.injEq, true_and] at h
      subst h
      exact linked_linkPlayer hl
  · cases h

/-! ## The past of a run -/

def Creates (accountID : String) (m : Pool.Step World) : Prop :=
  (¬ ∃ id, m.old.HasDefault accountID id) ∧ ∃ id, m.new.HasDefault accountID id

structure Inv (p : Pool.Past World) : Prop where
  furnished : Furnished p.1
  created : ∀ a, ∀ m ∈ p.2, Creates a m → ∃ id, p.1.HasDefault a id
  once : ∀ a, ∀ m ∈ p.2, ∀ m' ∈ p.2, Creates a m → Creates a m' → m.pid = m'.pid

def Later (p p' : Pool.Past World) : Prop := Grows p.1 p'.1 ∧ ∀ m ∈ p.2, m ∈ p'.2

theorem later_refl (p : Pool.Past World) : Later p p := ⟨grows_refl _, fun _ hm => hm⟩

theorem later_trans (p q r : Pool.Past World) (h : Later p q) (h' : Later q r) : Later p r :=
  ⟨h.1.trans h'.1, fun m hm => h'.2 m (h.2 m hm)⟩

theorem inv_push {p : Pool.Past World} (i : Nat) (hp : Inv p) (hw : Furnished w) (hg : Grows p.1 w) :
    Inv (w, ⟨i, p.1, w⟩ :: p.2) := by
  have hkept : ∀ a, ∀ m ∈ p.2, Creates a m → ∃ id, p.1.HasDefault a id := hp.created
  refine ⟨hw, fun a m hm hc => ?_, fun a m hm m' hm' hc hc' => ?_⟩
  · rcases List.mem_cons.mp hm with rfl | hm
    · exact hc.2
    · obtain ⟨id, hid⟩ := hkept a m hm hc
      exact ⟨id, hasDefault_grow hid hg⟩
  · rcases List.mem_cons.mp hm with rfl | hm
    · rcases List.mem_cons.mp hm' with rfl | hm'
      · rfl
      · exact absurd (hkept a m' hm' hc') hc.1
    · rcases List.mem_cons.mp hm' with rfl | hm'
      · exact absurd (hkept a m hm hc) hc'.1
      · exact hp.once a m hm m' hm' hc hc'

abbrev Sound (i : Nat) (post : Pool.Past World → Except GoErr Reply → Prop) : Handler → Pool.Past World → Prop :=
  Pool.Safe (Pool.record execLossy) (fun _ _ _ _ => True) Inv (fun _ => Later) i post

theorem does_issued {q : Request} {c : Cmd} {g : Ans c → World → World → Prop} (hq : Issued q c)
    (h : ∀ e w r w', execLossy i e w c = some (r, w') → g r w w') :
    Pool.Does (Pool.record execLossy) (fun _ _ _ _ => True) Inv (fun _ => Later) i c (fun _ => True)
      fun r p => ∃ m ∈ p.2, m.pid = i ∧ m.new = p.1 ∧ g r m.old m.new := by
  intro e p r p' hp _ _ hrec
  obtain ⟨w', hx, rfl⟩ := Pool.record_eq_some hrec
  have hwrote := wrote_lossy hx
  have hg := grows_wrote hwrote
  have hgrows : Grows p.1 w' := ⟨hg.players, hg.assets, hg.snapshots, hg.links⟩
  have hf : Furnished { p.1 with clock := p.1.clock + e.delay } :=
    ⟨hp.furnished.owns, hp.furnished.saved, hp.furnished.links⟩
  refine ⟨inv_push i hp (furnished_wrote hq hf hwrote) hgrows, fun _ => ?_, ?_⟩
  · exact ⟨hgrows, fun m hm => List.mem_cons_of_mem _ hm⟩
  · exact ⟨_, List.mem_cons_self .., rfl, rfl, h e p.1 r w' hx⟩

theorem sound_call {q : Request} {post : Pool.Past World → Except GoErr Reply → Prop} {c : Cmd} {k : Ans c → Handler}
    {p : Pool.Past World} {g : Ans c → World → World → Prop} (hq : Issued q c)
    (h : ∀ e w r w', execLossy i e w c = some (r, w') → g r w w')
    (hk : ∀ r p', Later p p' → (∃ m ∈ p'.2, m.pid = i ∧ m.new = p'.1 ∧ g r m.old m.new) → Sound i post (k r) p') :
    Sound i post (.call c k) p :=
  (does_issued hq h).call later_trans (fun _ _ h _ => h) trivial hk

/-! ## The handlers -/

def Ensured (i : Nat) (a : String) (p : Pool.Past World) (res : Except GoErr Reply) : Prop :=
  ∀ reply, res = .ok reply → ∃ id created, reply = .ensurePlayer a id created ∧ p.1.HasDefault a id ∧
    p.1.Linked a id ∧ (created = true → ∃ m ∈ p.2, m.pid = i ∧ Creates a m)

theorem ensured_error (i : Nat) (a : String) (p : Pool.Past World) (err : GoErr) : Ensured i a p (.error err) :=
  fun _ h => by cases h

theorem sound_linkAndReply {id : String} {created : Bool} {p : Pool.Past World} (hdef : p.1.HasDefault a id)
    (hnew : created = true → ∃ m ∈ p.2, m.pid = i ∧ Creates a m) :
    Sound i (Ensured i a) (linkAndReply a id created) p := by
  refine sound_call (q := .ensurePlayer none) (g := fun r _ w' => r = .ok () → w'.Linked a id) trivial
    (fun e w r w' hx hr => lossy_link (hr ▸ hx)) fun r p' hl hgives => ?_
  obtain ⟨m, -, -, hm, hlinked⟩ := hgives
  cases r with
  | error err => exact ensured_error i a p' _
  | ok u =>
    rintro reply ⟨⟩
    refine ⟨id, created, rfl, hasDefault_grow hdef hl.1, hm ▸ hlinked rfl, fun hc => ?_⟩
    obtain ⟨m', hm', hpid, hcr⟩ := hnew hc
    exact ⟨m', hl.2 m' hm', hpid, hcr⟩

theorem sound_ensurePlayer (i : Nat) (payload : String) (p : Pool.Past World) :
    Sound i (Ensured i (trimSpace payload)) (ensurePlayer (some payload)) p := by
  have hfind : ∀ a, ∀ e w r w', execLossy i e w (.findDefaultByAccountID a) = some (r, w') →
      ∀ x, r = .ok x → w'.HasDefault a x.id := fun a e w r w' hx x hr => lossy_find (hr ▸ hx)
  unfold ensurePlayer
  simp only [perform, Prog.perform_bind, Option.map_some]
  generalize trimSpace payload = a
  by_cases ha : a = ""
  · subst ha
    exact ensured_error i _ p _
  split
  · exact ensured_error i a p _
  · exact ensured_error i a p _
  rename_i accountID _ heq
  obtain rfl : a = accountID := Option.some.inj heq
  refine sound_call (q := .ensurePlayer none) (g := fun r _ w' => ∀ x, r = .ok x → w'.HasDefault a x.id) trivial
    (hfind a) fun r p₁ _ hgives => ?_
  obtain ⟨m, -, -, hm, hdef⟩ := hgives
  cases r with
  | ok x => exact sound_linkAndReply (hm ▸ hdef x rfl) fun hc => by cases hc
  | error err =>
    dsimp only
    split
    · exact ensured_error i a p₁ _
    -- no player yet: draw an id, read the clock, create it
    refine sound_call (q := .ensurePlayer none) (g := fun _ _ _ => True) trivial (fun _ _ _ _ _ => trivial)
      fun r p₂ _ _ => ?_
    cases r with
    | error idErr => exact ensured_error i a p₂ _
    | ok playerID =>
      refine sound_call (q := .ensurePlayer none) (g := fun _ _ _ => True) trivial (fun _ _ _ _ _ => trivial)
        fun now p₃ _ _ => ?_
      refine sound_call (q := .ensurePlayer none) (g := fun r w w' => r = .ok () →
        (¬ ∃ id, w.HasDefault a id) ∧ w'.HasDefault a playerID) ⟨rfl, rfl, initial_balance playerID now⟩
        (fun e w r w' hx hr => lossy_create rfl (hr ▸ hx)) fun r p₄ _ hgives => ?_
      obtain ⟨m, hmem, hpid, hm, hcreated⟩ := hgives
      cases r with
      | ok u =>
        obtain ⟨hnone, hsome⟩ := hcreated rfl
        exact sound_linkAndReply (hm ▸ hsome) fun _ => ⟨m, hmem, hpid, hnone, _, hsome⟩
      | error err =>
        -- lost to another request, or failed: whatever is there now
        refine sound_call (q := .ensurePlayer none) (g := fun r _ w' => ∀ x, r = .ok x → w'.HasDefault a x.id) trivial
          (hfind a) fun r p₅ _ hgives => ?_
        obtain ⟨m, -, -, hm, hdef⟩ := hgives
        cases r with
        | ok x => exact sound_linkAndReply (hm ▸ hdef x rfl) fun hc => by cases hc
        | error err => exact ensured_error i a p₅ _

def post (requests : List Request) (i : Nat) (p : Pool.Past World) (res : Except GoErr Reply) : Prop :=
  ∀ payload, requests[i]? = some (.ensurePlayer (some payload)) → Ensured i (trimSpace payload) p res

theorem sound_of_issued {q : Request} {h : Handler} (p : Pool.Past World) (hu : h.Uses (Issued q)) :
    Sound i (fun _ _ => True) h p := by
  refine Pool.Safe.of_uses (fun _ _ _ _ => trivial) (fun e p c r p' hq hp _ _ hx => ?_) hu trivial
  obtain ⟨hinv, hlater, -⟩ := does_issued (g := fun _ _ _ => True) hq (fun _ _ _ _ _ => trivial) e p r p' hp trivial trivial hx
  exact ⟨hinv, fun j _ => hlater j, trivial⟩

attribute [local irreducible] trimSpace in
theorem sound_handler {requests : List Request} {r : Request} (hr : requests[i]? = some r) (p : Pool.Past World) :
    Sound i (post requests i) r.handler p := by
  by_cases hpay : ∃ payload, r = .ensurePlayer (some payload)
  · obtain ⟨payload, rfl⟩ := hpay
    refine (sound_ensurePlayer i payload p).mono fun p' res h payload' hr' => ?_
    cases hr.symm.trans hr'
    exact h
  · refine (sound_of_issued p (handler_issued r)).mono fun p' res _ payload hr' => ?_
    exact absurd ⟨payload, Option.some.inj (hr.symm.trans hr')⟩ hpay

theorem past_run (hw : Furnished w) (requests : List Request) (sched : List (Nat × LossyEnv)) :
    ∃ p, Inv p ∧ p.1 = (Pool.run execLossy (State.init w requests) sched).world ∧
      ∀ i res, (Pool.run execLossy (State.init w requests) sched).answer i = some res →
        ∃ q, post requests i q res ∧ Later q p := by
  have hinit : Inv (w, []) := ⟨hw, fun _ _ hm => absurd hm List.not_mem_nil, fun _ _ hm => absurd hm List.not_mem_nil⟩
  have hsafe : ∀ i h, (requests.map Request.handler)[i]? = some h → Sound i (post requests i) h (w, []) :=
    Pool.forall_map fun _ _ hr => sound_handler hr _
  obtain ⟨p, hinv, heq, -, -, hpost⟩ := Pool.safe_past (fun _ => later_refl) (fun _ => later_trans) hinit hsafe
    (Pool.along_any _ sched)
  exact ⟨p, hinv, heq, hpost⟩

end Ensure

/-- Every success names the one default player of its account, which has
assets, a snapshot and one entry in the account's `player_ids`; successes for
one account name the same player, and at most one says it is new. -/
theorem ensured_players_agree (w₀ : World) (hw₀ : Furnished w₀) (requests : List Request)
    (sched : List (Nat × LossyEnv)) :
    let s := Pool.run execLossy (State.init w₀ requests) sched
    (∀ i x reply, requests[i]? = some (.ensurePlayer (some x)) → s.answer i = some (.ok reply) →
      ∃ playerID created, reply = .ensurePlayer (trimSpace x) playerID created ∧
        (∃ p ∈ s.world.players, p.isDefault = true ∧ p.accountID = trimSpace x ∧ p.id = playerID ∧
          ∀ y ∈ s.world.players, y.isDefault = true → y.accountID = trimSpace x → y = p) ∧
        (∃ a ∈ s.world.assets, a.playerID = playerID) ∧ (∃ d ∈ s.world.snapshots, d.playerID = playerID) ∧
        ∃ ids, s.world.links.lookup (trimSpace x) = some ids ∧ ids.count playerID = 1) ∧
    ∀ i j x y p q c d, requests[i]? = some (.ensurePlayer (some x)) → requests[j]? = some (.ensurePlayer (some y)) →
      trimSpace x = trimSpace y → s.answer i = some (.ok (.ensurePlayer (trimSpace x) p c)) →
      s.answer j = some (.ok (.ensurePlayer (trimSpace y) q d)) → p = q ∧ (c = true → d = true → i = j) := by
  intro s
  obtain ⟨past, hinv, hworld, hpost⟩ := Ensure.past_run hw₀ requests sched
  -- what a success said when it was sent still holds
  have hnow : ∀ i x reply, requests[i]? = some (.ensurePlayer (some x)) → s.answer i = some (.ok reply) →
      ∃ id created, reply = .ensurePlayer (trimSpace x) id created ∧ s.world.HasDefault (trimSpace x) id ∧
        s.world.Linked (trimSpace x) id ∧ (created = true → ∃ m ∈ past.2, m.pid = i ∧ Ensure.Creates (trimSpace x) m) := by
    intro i x reply hi hans
    obtain ⟨q, hq, hl⟩ := hpost i _ hans
    obtain ⟨id, created, heq, hdef, hlink, hcr⟩ := hq x hi reply rfl
    refine ⟨id, created, heq, ?_, ?_, fun hc => ?_⟩
    · exact hworld ▸ Ensure.hasDefault_grow hdef hl.1
    · exact hworld ▸ hl.1.links _ _ hlink
    · obtain ⟨m, hm, hrest⟩ := hcr hc
      exact ⟨m, hl.2 m hm, hrest⟩
  have hf : Furnished s.world := hworld ▸ hinv.furnished
  refine ⟨fun i x reply hi hans => ?_, fun i j x y p q c d hi hj hxy hp hq => ?_⟩
  · obtain ⟨id, created, heq, ⟨z, hz, hdef, hacc, hid⟩, ⟨ids, hids, hmem⟩, -⟩ := hnow i x reply hi hans
    refine ⟨id, created, heq, ⟨z, hz, hdef, hacc, hid, fun y hy hyd hya => ?_⟩, hid ▸ hf.owns z hz hdef,
      hid ▸ hf.saved z hz hdef, ids, hids, List.count_eq_one_of_mem (hf.links _ _ hids) hmem⟩
    exact Ensure.default_unique hy hz hyd hdef (hya.trans hacc.symm)
  · obtain ⟨_, _, ⟨⟩, ⟨z, hz, hdef, hacc, hid⟩, -, hcr⟩ := hnow i x _ hi hp
    obtain ⟨_, _, ⟨⟩, ⟨z', hz', hdef', hacc', hid'⟩, -, hcr'⟩ := hnow j y _ hj hq
    have hsame : z = z' := Ensure.default_unique hz hz' hdef hdef' (by rw [hacc, hacc', hxy])
    refine ⟨by rw [← hid, ← hid', hsame], fun hc hd => ?_⟩
    obtain ⟨m, hm, hpid, hmc⟩ := hcr hc
    obtain ⟨m', hm', hpid', hmc'⟩ := hcr' hd
    rw [← hpid, ← hpid']
    exact hinv.once _ m hm m' hm' hmc (hxy ▸ hmc')

def newAccount : AList fun _ : String => List String := (∅ : AList fun _ => List String).insert "account-1" []

theorem furnished_newAccount : Furnished (World.init newAccount 1) := by
  refine furnished_init 1 fun accountID ids h => ?_
  by_cases ha : accountID = "account-1"
  · subst ha
    rw [newAccount, AList.lookup_insert, Option.some.injEq] at h
    exact h ▸ List.nodup_nil
  · rw [newAccount, AList.lookup_insert_ne ha, AList.lookup_empty] at h
    cases h

def bothEnsure : List Request := [.ensurePlayer (some "account-1"), .ensurePlayer (some " account-1 ")]

def bothLookFirst : List (Nat × LossyEnv) :=
  [(0, {}), (1, {}), (0, { uuid := "player-1" }), (1, { uuid := "player-2" }), (0, {}), (1, {}), (0, {}), (1, {}),
    (1, {}), (0, {}), (1, {})]

theorem ensured_players_agree_in_race :
    let s := Pool.run execLossy (State.init (World.init newAccount 1) bothEnsure) bothLookFirst
    Furnished (World.init newAccount 1) ∧ ∃ p q d, s.answer 0 = some (.ok (.ensurePlayer "account-1" p true)) ∧
      s.answer 1 = some (.ok (.ensurePlayer "account-1" q d)) ∧ p = q ∧ d ≠ true := by
  have h₀ : (Pool.run execLossy (State.init (World.init newAccount 1) bothEnsure) bothLookFirst).answer 0 =
      some (.ok (.ensurePlayer "account-1" "player-1" true)) := by decide
  have h₁ : (Pool.run execLossy (State.init (World.init newAccount 1) bothEnsure) bothLookFirst).answer 1 =
      some (.ok (.ensurePlayer "account-1" "player-1" false)) := by decide
  have h := (ensured_players_agree _ furnished_newAccount bothEnsure bothLookFirst).2 0 1 _ _ _ _ _ _ rfl rfl
    (by decide) h₀ h₁
  exact ⟨furnished_newAccount, _, _, _, h₀, h₁, h.1, fun hd => absurd (h.2 rfl hd) (by decide)⟩

end GameServer.Lobby
