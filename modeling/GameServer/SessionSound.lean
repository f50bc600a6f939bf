import GameServer.SessionExec
import GameServer.Trace

/-!
# Resume tokens are used once

The invariant of all runs of the session managers: an id is drawn by one
handler and stored at most once, a token hash belongs to one epoch of one
session, and the epoch of a session only grows.
-/

namespace GameServer.Gateway

open Pool (Past Visited)

def Key.Fits : Key → Record → Prop
  | .session sid, r => r.sessionID = sid ∧ isRandomID sid = true
  | .account _, r => isRandomID r.sessionID = true

section
variable (hash : String → String)

def Unused (p : Past World) (t : String) : Prop :=
  ∀ u, Visited p u → u.kept (.session t) = none ∧ (Function.Injective hash →
    ∀ sid r, u.kept (.session sid) = some r → r.resumeTokenHash ≠ hash t)

structure Rely (i : Nat) (p p' : Past World) : Prop where
  unused : ∀ t, (t, i) ∈ p.1.issued → Unused hash p t → Unused hash p' t
  issued : ∀ x ∈ p.1.issued, x ∈ p'.1.issued
  past : ∀ m ∈ p.2, m ∈ p'.2

variable {hash} in
theorem Rely.refl (i : Nat) (p : Past World) : Rely hash i p p :=
  ⟨fun _ _ h => h, fun _ h => h, fun _ h => h⟩

variable {hash} in
theorem Rely.trans (i : Nat) (a b c : Past World) (h : Rely hash i a b) (h' : Rely hash i b c) : Rely hash i a c :=
  ⟨fun t ht hu => h'.unused t (h.issued _ ht) (h.unused t ht hu), fun x hx => h'.issued x (h.issued x hx),
    fun m hm => h'.past m (h.past m hm)⟩

/-- A step by a handler that presents a token touches no session with another
token, and no step takes a session to an earlier epoch. -/
structure Allowed (tok : Nat → Option String) (m : Pool.Step World) : Prop where
  grows : ∀ sid r r', m.old.kept (.session sid) = some r → m.new.kept (.session sid) = some r' →
    r.connectionEpoch ≤ r'.connectionEpoch
  spares : ∀ token, tok m.pid = some token → ∀ sid r, m.old.kept (.session sid) = some r →
    r.resumeTokenHash ≠ hash token →
      ∃ r', m.new.kept (.session sid) = some r' ∧ SameEpoch r r' ∧ r'.connectionID = r.connectionID

def Ordered (later earlier : Pool.Step World) : Prop :=
  ∀ sid r r', earlier.new.kept (.session sid) = some r → later.old.kept (.session sid) = some r' →
    r.connectionEpoch ≤ r'.connectionEpoch

structure Inv (tok : Nat → Option String) (p : Past World) : Prop where
  fits : ∀ k r, p.1.kept k = some r → k.Fits r
  owner : ∀ t i j, (t, i) ∈ p.1.issued → (t, j) ∈ p.1.issued → i = j
  origin : ∀ u, Visited p u → ∀ sid r, u.kept (.session sid) = some r →
    sid ∈ p.1.issued.map (·.1) ∧ ∃ t ∈ p.1.issued.map (·.1), r.resumeTokenHash = hash t
  one : Function.Injective hash → ∀ u v, Visited p u → Visited p v → ∀ sid sid' r r', u.kept (.session sid) = some r →
    v.kept (.session sid') = some r' → r.resumeTokenHash = r'.resumeTokenHash →
      sid = sid' ∧ r.connectionEpoch = r'.connectionEpoch
  grows : ∀ u, Visited p u → ∀ sid r r', u.kept (.session sid) = some r → p.1.kept (.session sid) = some r' →
    r.connectionEpoch ≤ r'.connectionEpoch
  order : p.2.Pairwise Ordered
  bound : ∀ sid r, p.1.kept (.session sid) = some r → r.connectionEpoch ≤ p.2.length
  allowed : ∀ m ∈ p.2, Allowed hash tok m

structure Adds (i : Nat) (p : Past World) (sid : String) (r : Record) : Prop where
  token : ∃ t, (t, i) ∈ p.1.issued ∧ Unused hash p t ∧ r.resumeTokenHash = hash t
  fits : (Key.session sid).Fits r
  session : ((sid, i) ∈ p.1.issued ∧ Unused hash p sid ∧ r.connectionEpoch = 1) ∨
    ∃ r₀, p.1.kept (.session sid) = some r₀ ∧ r.connectionEpoch = r₀.connectionEpoch + 1

structure Moves (i : Nat) (p : Past World) (sid₀ : String) (w' : World) : Prop where
  session : ∀ sid r', w'.kept (.session sid) = some r' →
    (∃ r, p.1.kept (.session sid) = some r ∧ SameEpoch r r') ∨ (sid = sid₀ ∧ Adds hash i p sid r')
  account : ∀ acc r', w'.kept (.account acc) = some r' →
    isRandomID r'.sessionID = true ∨ ∃ r, p.1.kept (.account acc) = some r ∧ r'.sessionID = r.sessionID
  issued : ∀ x ∈ p.1.issued, x ∈ w'.issued
  owner : ∀ t i j, (t, i) ∈ w'.issued → (t, j) ∈ w'.issued → i = j

variable {hash} {tok : Nat → Option String} {i : Nat} {p : Past World} {sid₀ : String} {w' : World}

theorem Moves.source (hm : Moves hash i p sid₀ w') {u : World} (hu : Visited (w', ⟨i, p.1, w'⟩ :: p.2) u) {sid : String}
    {r : Record} (hr : u.kept (.session sid) = some r) :
    (∃ u₀ r₀, Visited p u₀ ∧ u₀.kept (.session sid) = some r₀ ∧ SameEpoch r₀ r) ∨
      (w'.kept (.session sid) = some r ∧ sid = sid₀ ∧ Adds hash i p sid r) := by
  rcases Pool.visited_step hu with rfl | hu
  · rcases hm.session sid r hr with ⟨r₀, hr₀, hsame⟩ | hadds
    · exact .inl ⟨p.1, r₀, .inl rfl, hr₀, hsame⟩
    · exact .inr ⟨hr, hadds⟩
  · exact .inl ⟨u, r, hu, hr, .refl r⟩

theorem Moves.fits (hi : Inv hash tok p) (hm : Moves hash i p sid₀ w') (k : Key) (r : Record) (hr : w'.kept k = some r) :
    k.Fits r := by
  cases k with
  | session sid =>
    rcases hm.session sid r hr with ⟨r₀, hr₀, hsame⟩ | ⟨-, hadds⟩
    · have := hi.fits _ _ hr₀
      exact ⟨hsame.sessionID.trans this.1, this.2⟩
    · exact hadds.fits
  | account acc =>
    rcases hm.account acc r hr with h | ⟨r₀, hr₀, heq⟩
    · exact h
    · have := hi.fits _ _ hr₀
      rwa [Key.Fits, heq]

theorem Moves.origin (hi : Inv hash tok p) (hm : Moves hash i p sid₀ w') {u : World}
    (hu : Visited (w', ⟨i, p.1, w'⟩ :: p.2) u) {sid : String} {r : Record} (hr : u.kept (.session sid) = some r) :
    sid ∈ w'.issued.map (·.1) ∧ ∃ t ∈ w'.issued.map (·.1), r.resumeTokenHash = hash t := by
  have hmono : ∀ t ∈ p.1.issued.map (·.1), t ∈ w'.issued.map (·.1) := by
    intro t ht
    obtain ⟨x, hx, rfl⟩ := List.mem_map.mp ht
    exact List.mem_map_of_mem (hm.issued x hx)
  have hdrawn : ∀ {t : String}, (t, i) ∈ p.1.issued → t ∈ w'.issued.map (·.1) := fun h =>
    hmono _ (List.mem_map_of_mem h)
  rcases hm.source hu hr with ⟨u₀, r₀, hu₀, hr₀, hsame⟩ | ⟨-, -, hadds⟩
  · obtain ⟨hsid, t, ht, heq⟩ := hi.origin u₀ hu₀ sid r₀ hr₀
    exact ⟨hmono _ hsid, t, hmono _ ht, hsame.resumeTokenHash.trans heq⟩
  · obtain ⟨t, ht, -, heq⟩ := hadds.token
    refine ⟨?_, t, hdrawn ht, heq⟩
    rcases hadds.session with ⟨hown, -⟩ | ⟨r₀, hr₀, -⟩
    · exact hdrawn hown
    · exact hmono _ (hi.origin p.1 (.inl rfl) sid r₀ hr₀).1

theorem Moves.one (hinj : Function.Injective hash) (hi : Inv hash tok p) (hm : Moves hash i p sid₀ w') {u v : World}
    (hu : Visited (w', ⟨i, p.1, w'⟩ :: p.2) u) (hv : Visited (w', ⟨i, p.1, w'⟩ :: p.2) v) {sid sid' : String}
    {r r' : Record} (hr : u.kept (.session sid) = some r) (hr' : v.kept (.session sid') = some r')
    (heq : r.resumeTokenHash = r'.resumeTokenHash) : sid = sid' ∧ r.connectionEpoch = r'.connectionEpoch := by
  -- a token that is added now was not in the past
  have hnew : ∀ {sid r u₀ sid₁ r₁}, Adds hash i p sid r → Visited p u₀ → u₀.kept (.session sid₁) = some r₁ →
      r₁.resumeTokenHash ≠ r.resumeTokenHash := by
    intro sid r u₀ sid₁ r₁ hadds hu₀ hr₁
    obtain ⟨t, -, hunused, ht⟩ := hadds.token
    rw [ht]
    exact (hunused u₀ hu₀).2 hinj sid₁ r₁ hr₁
  rcases hm.source hu hr with ⟨u₀, r₀, hu₀, hr₀, hsame⟩ | ⟨hnow, hsid, hadds⟩ <;>
    rcases hm.source hv hr' with ⟨v₀, r₁, hv₀, hr₁, hsame'⟩ | ⟨hnow', hsid', hadds'⟩
  · obtain ⟨h₁, h₂⟩ := hi.one hinj u₀ v₀ hu₀ hv₀ sid sid' r₀ r₁ hr₀ hr₁
      (by rw [← hsame.resumeTokenHash, heq, hsame'.resumeTokenHash])
    exact ⟨h₁, by rw [hsame.connectionEpoch, h₂, hsame'.connectionEpoch]⟩
  · exact absurd (hsame.resumeTokenHash.symm.trans heq) (hnew hadds' hu₀ hr₀)
  · exact absurd (hsame'.resumeTokenHash.symm.trans heq.symm) (hnew hadds hv₀ hr₁)
  · subst hsid hsid'
    exact ⟨rfl, by rw [Option.some.inj (hnow.symm.trans hnow')]⟩

theorem Moves.grows (hi : Inv hash tok p) (hm : Moves hash i p sid₀ w') {u : World}
    (hu : Visited (w', ⟨i, p.1, w'⟩ :: p.2) u) {sid : String} {r r' : Record} (hr : u.kept (.session sid) = some r)
    (hr' : w'.kept (.session sid) = some r') : r.connectionEpoch ≤ r'.connectionEpoch := by
  rcases hm.source hu hr with ⟨u₀, r₀, hu₀, hr₀, hsame⟩ | ⟨hnow, -, -⟩
  · rw [hsame.connectionEpoch]
    rcases hm.session sid r' hr' with ⟨r₁, hr₁, hsame'⟩ | ⟨-, hadds⟩
    · rw [hsame'.connectionEpoch]
      exact hi.grows u₀ hu₀ sid r₀ r₁ hr₀ hr₁
    · rcases hadds.session with ⟨-, hunused, -⟩ | ⟨r₁, hr₁, hnext⟩
      · rw [(hunused u₀ hu₀).1] at hr₀
        cases hr₀
      · rw [hnext]
        exact Nat.le_succ_of_le (hi.grows u₀ hu₀ sid r₀ r₁ hr₀ hr₁)
  · exact Nat.le_of_eq (by rw [Option.some.inj (hnow.symm.trans hr')])

theorem Moves.bound (hi : Inv hash tok p) (hm : Moves hash i p sid₀ w') {sid : String} {r : Record}
    (hr : w'.kept (.session sid) = some r) : r.connectionEpoch ≤ p.2.length + 1 := by
  rcases hm.session sid r hr with ⟨r₀, hr₀, hsame⟩ | ⟨-, hadds⟩
  · exact hsame.connectionEpoch ▸ Nat.le_succ_of_le (hi.bound sid r₀ hr₀)
  · rcases hadds.session with ⟨-, -, hone⟩ | ⟨r₀, hr₀, hnext⟩
    · rw [hone]
      exact Nat.le_add_left 1 _
    · rw [hnext]
      exact Nat.succ_le_succ (hi.bound sid r₀ hr₀)

theorem Moves.rely (hi : Inv hash tok p) (hm : Moves hash i p sid₀ w') {j : Nat}
    (hj : j ≠ i) : Rely hash j p (w', ⟨i, p.1, w'⟩ :: p.2) := by
  refine ⟨fun t ht hunused u hu => ?_, hm.issued, fun m h => List.mem_cons_of_mem _ h⟩
  rcases Pool.visited_step hu with rfl | hu
  · have hmine : ∀ {t'}, (t', i) ∈ p.1.issued → t' ≠ t := by
      rintro t' ht' rfl
      exact hj (hi.owner t' j i ht ht')
    refine ⟨Option.eq_none_iff_forall_ne_some.mpr fun r hr => ?_, fun hinj sid r hr heq => ?_⟩
    · rcases hm.session t r hr with ⟨r₀, hr₀, -⟩ | ⟨-, hadds⟩
      · rw [(hunused p.1 (.inl rfl)).1] at hr₀
        cases hr₀
      · rcases hadds.session with ⟨hown, -⟩ | ⟨r₀, hr₀, -⟩
        · exact hmine hown rfl
        · rw [(hunused p.1 (.inl rfl)).1] at hr₀
          cases hr₀
    · rcases hm.session sid r hr with ⟨r₀, hr₀, hsame⟩ | ⟨-, hadds⟩
      · exact (hunused p.1 (.inl rfl)).2 hinj sid r₀ hr₀ (hsame.resumeTokenHash.symm.trans heq)
      · obtain ⟨t', ht', -, heq'⟩ := hadds.token
        exact hmine ht' (hinj (heq'.symm.trans heq))
  · exact hunused u hu

theorem Moves.inv (hi : Inv hash tok p) (hm : Moves hash i p sid₀ w')
    (hspares : ∀ token, tok i = some token → ∀ sid r, p.1.kept (.session sid) = some r → r.resumeTokenHash ≠ hash token →
      ∃ r', w'.kept (.session sid) = some r' ∧ SameEpoch r r' ∧ r'.connectionID = r.connectionID) :
    Inv hash tok (w', ⟨i, p.1, w'⟩ :: p.2) where
  fits := hm.fits hi
  owner := hm.owner
  origin _ hu _ _ hr := hm.origin hi hu hr
  one hinj _ _ hu hv _ _ _ _ hr hr' heq := hm.one hinj hi hu hv hr hr' heq
  grows _ hu _ _ _ hr hr' := hm.grows hi hu hr hr'
  order := List.pairwise_cons.mpr
    ⟨fun m hmem => hi.grows m.new (.inr ⟨m, hmem, .inr rfl⟩), hi.order⟩
  bound _ _ hr := hm.bound hi hr
  allowed := List.forall_mem_cons.mpr
    ⟨⟨fun _ _ _ => hm.grows hi (.inr ⟨_, List.mem_cons_self .., .inl rfl⟩), hspares⟩, hi.allowed⟩

/-! ## Handlers -/

variable (hash tok) in
abbrev Sound {α : Type} (i : Nat) (post : Past World → α → Prop) (q : Prog Ans α) (p : Past World) : Prop :=
  Pool.Safe (Pool.record exec) (fun _ _ _ _ => True) (Inv hash tok) (Rely hash) i post q p

variable {α : Type} {post : Past World → α → Prop} {c : Cmd} {k : Ans c → Prog Ans α} {p₀ : Past World}

theorem Moves.of_keeps (hi : Inv hash tok p) (h : Keeps p.1 w') : Moves hash i p "" w' where
  session sid r' hr := .inl (h.session sid r' hr)
  account := h.account
  issued _ hx := by rwa [h.issued]
  owner t i j := by rw [h.issued]; exact hi.owner t i j

theorem step_retains (hi : Inv hash tok p) (h : Retains p.1 w') :
    Inv hash tok (w', ⟨i, p.1, w'⟩ :: p.2) ∧ ∀ j, j ≠ i → Rely hash j p (w', ⟨i, p.1, w'⟩ :: p.2) :=
  have hm := Moves.of_keeps hi h.toKeeps
  ⟨hm.inv hi fun _ _ sid r hr _ => h.still sid r hr, fun _ hj => hm.rely hi hj⟩

theorem sound_call (h : ∀ e p r w', Rely hash i p₀ p → Inv hash tok p → exec i e p.1 c = some (r, w') →
      (Inv hash tok (w', ⟨i, p.1, w'⟩ :: p.2) ∧ ∀ j, j ≠ i → Rely hash j p (w', ⟨i, p.1, w'⟩ :: p.2)) ∧
        Sound hash tok i post (k r) (w', ⟨i, p.1, w'⟩ :: p.2)) : Sound hash tok i post (.call c k) p₀ := by
  rintro e p r p' hr hi - hrec
  obtain ⟨w', hx, rfl⟩ := Pool.record_eq_some hrec
  obtain ⟨⟨hinv, hrely⟩, hk⟩ := h e p r w' hr hi hx
  exact ⟨hinv, hrely, hk⟩

theorem sound_quiet (hc : Quiet c)
    (h : ∀ e p r w', Rely hash i p₀ p → Inv hash tok p → exec i e p.1 c = some (r, w') →
      Sound hash tok i post (k r) (w', ⟨i, p.1, w'⟩ :: p.2)) : Sound hash tok i post (.call c k) p₀ :=
  sound_call fun e p r w' hr hi hx => ⟨step_retains hi (retains_quiet hc hx), h e p r w' hr hi hx⟩

theorem sound_quiet_keep {K : Past World → Prop}
    (hkeep : ∀ p p', K p → (∀ m ∈ p.2, m ∈ p'.2) → K p') (hc : Quiet c) (hp : K p₀)
    (h : ∀ r p, K p → Sound hash tok i post (k r) p) : Sound hash tok i post (.call c k) p₀ :=
  sound_quiet hc fun _ _ r _ hr _ _ => h r _ (hkeep _ _ hp fun m hm => List.mem_cons_of_mem _ (hr.past m hm))

theorem sound_of_quiet {K : Past World → Prop}
    (hkeep : ∀ p p', K p → (∀ m ∈ p.2, m ∈ p'.2) → K p') {q : Prog Ans α} (hq : q.Uses Quiet) (h : K p₀) :
    Sound hash tok i (fun p _ => K p) q p₀ := by
  refine Pool.Safe.of_uses (fun a b ha hab => hkeep a b ha hab.past) (fun e p c r p' hc hi hp _ hrec => ?_) hq h
  obtain ⟨w', hx, rfl⟩ := Pool.record_eq_some hrec
  obtain ⟨hinv, hrely⟩ := step_retains (i := i) hi (retains_quiet hc hx)
  exact ⟨hinv, hrely, hkeep _ _ hp fun m hm => List.mem_cons_of_mem _ hm⟩

theorem sound_keeps (htok : tok i = none)
    (hc : ∀ e w r w', exec i e w c = some (r, w') → Keeps w w')
    (h : ∀ e p r w', Rely hash i p₀ p → Inv hash tok p → exec i e p.1 c = some (r, w') →
      Sound hash tok i post (k r) (w', ⟨i, p.1, w'⟩ :: p.2)) : Sound hash tok i post (.call c k) p₀ := by
  refine sound_call fun e p r w' hr hi hx => ⟨?_, h e p r w' hr hi hx⟩
  have hm := Moves.of_keeps (i := i) hi (hc e p.1 r w' hx)
  exact ⟨hm.inv hi fun token ht => (nomatch htok.symm.trans ht), fun _ hj => hm.rely hi hj⟩

theorem sound_randomID {k : Ans .randomID → Prog Ans α}
    (herr : ∀ err p, Sound hash tok i post (k (.error err)) p)
    (hok : ∀ id p p', Rely hash i p₀ p → (∀ t, (t, i) ∈ p.1.issued → Unused hash p t → Unused hash p' t) →
      (∀ x ∈ p.1.issued, x ∈ p'.1.issued) → (id, i) ∈ p'.1.issued → Unused hash p' id → isRandomID id = true →
        Sound hash tok i post (k (.ok id)) p') : Sound hash tok i post (.call .randomID k) p₀ := by
  refine sound_call fun e p r w' hr hi hx => ?_
  rcases exec_randomID hx with ⟨rfl, hfail⟩ | ⟨id, rfl, hid, hfresh, hdata, hissued⟩
  · refine ⟨step_retains hi (.tick _ _), ?_⟩
    cases r with
    | error err => exact herr err _
    | ok id => exact absurd rfl (hfail id)
  · have hkept := kept_of_data hdata
    have hm : Moves hash i p "" w' := by
      refine ⟨fun sid r hr => .inl ⟨r, hkept _ ▸ hr, .refl r⟩, fun acc r hr => .inr ⟨r, hkept _ ▸ hr, rfl⟩,
        fun x hx => hissued ▸ List.mem_cons_of_mem _ hx, fun t a b ha hb => ?_⟩
      have hnew : ∀ {a}, (t, a) ∈ p.1.issued → t ≠ id := by
        rintro a ha rfl
        exact hfresh (List.mem_map_of_mem ha)
      rw [hissued, List.mem_cons] at ha hb
      rcases ha with ha | ha <;> rcases hb with hb | hb
      · cases ha
        cases hb
        rfl
      · cases ha
        exact absurd rfl (hnew hb)
      · cases hb
        exact absurd rfl (hnew ha)
      · exact hi.owner t a b ha hb
    -- the store is as before, so what was unused still is
    have hsame : ∀ t, Unused hash p t → Unused hash (w', ⟨i, p.1, w'⟩ :: p.2) t := by
      intro t ht u hu
      rcases Pool.visited_step hu with rfl | hu
      · simp only [hkept]
        exact ht p.1 (.inl rfl)
      · exact ht u hu
    have hfresh' : Unused hash p id := by
      refine fun u hu => ⟨Option.eq_none_iff_forall_ne_some.mpr fun r hr => hfresh (hi.origin u hu id r hr).1, ?_⟩
      intro hinj sid r hr heq
      obtain ⟨t, ht, heq'⟩ := (hi.origin u hu sid r hr).2
      exact hfresh (hinj (heq'.symm.trans heq) ▸ ht)
    exact ⟨⟨hm.inv hi fun _ _ sid r hr _ => ⟨r, (hkept _).trans hr, .refl r, rfl⟩, fun _ hj => hm.rely hi hj⟩,
      hok id p _ hr (fun t _ => hsame t) hm.issued (hissued ▸ List.mem_cons_self ..) (hsame id hfresh') hid⟩

theorem Moves.put (hi : Inv hash tok p) {sid : String} {r : Record} {d : Time} {t : Nat} (h : Adds hash i p sid r) :
    Moves hash i p sid (World.put { p.1 with clock := p.1.clock + t } (.session sid) r d) where
  session sid' r' hr := by
    rw [kept_put] at hr
    split at hr
    · rename_i heq
      cases heq
      cases hr
      exact .inr ⟨rfl, h⟩
    · exact .inl ⟨r', hr, .refl r'⟩
  account acc r' hr := by
    rw [kept_put, if_neg (nomatch ·)] at hr
    exact .inr ⟨r', hr, rfl⟩
  issued _ hx := hx
  owner := hi.owner

theorem sound_create (htok : tok i = none) (m : Manager)
    (accountID connectionID : String) (now : Time) (playerID : String) :
    Sound hash tok i (fun _ _ => True) (create hash m accountID connectionID now playerID) p₀ := by
  unfold create
  simp only [perform, Prog.perform_bind]
  refine sound_randomID (fun _ _ => trivial) fun sid _ p₁ _ _ _ hsid hsidFree hrandom => ?_
  dsimp only
  refine sound_randomID (fun _ _ => trivial) fun token p p₂ hr hkeep hsub htoken htokenFree _ => ?_
  have hsid₂ := hsub _ (hr.issued _ hsid)
  have hsidFree₂ := hkeep sid (hr.issued _ hsid) (hr.unused sid hsid hsidFree)
  dsimp only
  refine sound_call fun e p r w' hr hi hx => ?_
  rcases exec_create hx hrandom with ⟨rfl, hfail⟩ | ⟨rfl, d, rfl⟩
  · refine ⟨step_retains hi (.tick _ _), ?_⟩
    cases r with
    | error err => trivial
    | ok => exact absurd rfl hfail
  · have hadds : Adds hash i p sid
        { sessionID := sid, accountID, playerID, gatewayInstanceID := m.gatewayID, connectionID, connectionEpoch := 1,
          state := .authenticated, resumeTokenHash := hash token, expireAt := now + m.sessionTTL } :=
      ⟨⟨token, hr.issued _ htoken, hr.unused token htoken htokenFree, rfl⟩, ⟨rfl, hrandom⟩,
        .inl ⟨hr.issued _ hsid₂, hr.unused sid hsid₂ hsidFree₂, rfl⟩⟩
    have hm := Moves.put (d := d) (t := e.delay) hi hadds
    refine ⟨⟨hm.inv hi fun _ ht => (nomatch htok.symm.trans ht), fun _ hj => hm.rely hi hj⟩, ?_⟩
    refine sound_of_quiet (K := fun _ => True) (fun _ _ _ _ => trivial) ?_ trivial
    refine ⟨hrandom, fun r => ?_⟩
    cases r with
    | error err => trivial
    | ok claimed => exact ⟨trivial, fun _ => uses_preempt_emit (fun _ _ => trivial) (fun _ => trivial) (fun _ => trivial) ..⟩

theorem Inv.isRandomID_of_get (hi : Inv hash tok p) {e : Env} {id : String} {r : Record}
    (h : exec i e p.1 (.get id) = some (.ok r, w')) : isRandomID r.sessionID = true := by
  have hfits := hi.fits _ _ (kept_of_lookup (exec_get h).2)
  cases hk : p.1.key id with
  | session sid =>
    rw [hk] at hfits
    exact hfits.1 ▸ hfits.2
  | account acc =>
    rw [hk] at hfits
    exact hfits

theorem sound_disconnect (htok : tok i = none) (m : Manager)
    (sessionID connectionID : String) (now : Time) (epoch : Nat) :
    Sound hash tok i (fun _ _ => True) (disconnect m sessionID connectionID now epoch) p₀ := by
  unfold disconnect
  simp only [perform, Prog.perform_bind]
  refine sound_quiet trivial fun e p r w' _ hi hx => ?_
  cases r with
  | error err => trivial
  | ok expected =>
    have hid := hi.isRandomID_of_get hx
    dsimp only
    split
    · trivial
    split
    · trivial
    refine sound_keeps htok (fun _ _ _ _ h => keeps_compareAndSwap h hid ⟨rfl, rfl, rfl⟩) fun _ _ r _ _ _ _ => ?_
    cases r with
    | error err => trivial
    | ok swapped =>
      refine sound_keeps htok (fun _ _ _ _ h => keeps_releaseAccount h) fun _ _ r _ _ _ _ => ?_
      refine sound_of_quiet (K := fun _ => True) (fun _ _ _ _ => trivial) ?_ trivial
      cases r with
      | error err => trivial
      | ok => exact ⟨trivial, fun _ => ⟨trivial, fun _ => ⟨trivial, fun _ => trivial⟩⟩⟩

theorem sound_expire (htok : tok i = none) (k : Nat) :
    Sound hash tok i (fun _ _ => True) (expire k) p₀ := by
  unfold expire
  simp only [perform, Prog.perform_bind]
  refine sound_quiet trivial fun _ _ disconnected _ _ _ _ => ?_
  refine sound_quiet trivial fun _ _ now _ _ _ _ => ?_
  refine sound_quiet trivial fun _ _ r _ _ _ _ => ?_
  have hemit : ∀ type r p, Sound hash tok i (fun _ _ => True) (emitLifecycle type r now) p := fun type r p =>
    sound_of_quiet (K := fun _ => True) (fun _ _ _ _ => trivial) ⟨trivial, fun _ => trivial⟩ trivial
  cases r with
  | error err =>
    dsimp only
    split
    · exact hemit _ _ _
    · trivial
  | ok record =>
    dsimp only
    split
    · trivial
    refine sound_keeps htok (fun _ _ _ _ h => keeps_delete h) fun _ _ r _ _ _ _ => ?_
    cases r with
    | error err => trivial
    | ok =>
      refine sound_keeps htok (fun _ _ _ _ h => keeps_releaseAccount h) fun _ _ _ _ _ _ _ => ?_
      exact hemit _ _ _

variable (hash) in
structure Resumed (i : Nat) (token : String) (r : Record) (m : Pool.Step World) : Prop where
  pid : m.pid = i
  replaced : ∃ old, m.old.lookup (.session r.sessionID) = some old ∧ old.resumeTokenHash = hash token ∧
    r.connectionEpoch = old.connectionEpoch + 1
  stored : m.new.lookup (.session r.sessionID) = some r

theorem sound_resume {token : String} (htok : tok i = some token) (m : Manager)
    (sessionID connectionID : String) (now : Time) :
    Sound hash tok i (fun p res => ∀ c, res = .ok c → ∃ s ∈ p.2, Resumed hash i token c.record s)
      (resume hash m sessionID token connectionID now) p₀ := by
  unfold resume
  simp only [perform, Prog.perform_bind]
  refine sound_quiet trivial fun e p r w' _ hi hx => ?_
  cases r with
  | error err => exact nofun
  | ok expected =>
    have hid := hi.isRandomID_of_get hx
    dsimp only
    split
    · refine sound_call fun e p r w' _ hi hx => ⟨?_, nofun⟩
      exact step_retains hi (retains_compareAndSwap hx hid ⟨rfl, rfl, rfl⟩ rfl)
    split
    · exact nofun
    rename_i hmatch
    refine sound_randomID (fun _ _ => nofun) fun next _ p₁ _ _ _ hnext hfree _ => ?_
    refine sound_call fun e p r w' hr hi hx => ?_
    rcases exec_compareAndSwap hx hid rfl with ⟨rfl, hfail⟩ | ⟨rfl, hold, hnew, d, rfl⟩
    · refine ⟨step_retains hi (.tick _ _), ?_⟩
      cases r with
      | error err => exact nofun
      | ok swapped =>
        cases swapped with
        | false => exact nofun
        | true => exact absurd rfl hfail
    have hkept := kept_of_lookup hold
    have hadds : Adds hash i p expected.sessionID
        { expected with
          state := .authenticated, connectionID, gatewayInstanceID := m.gatewayID
          connectionEpoch := expected.connectionEpoch + 1, resumeTokenHash := hash next
          expireAt := now + m.sessionTTL } :=
      ⟨⟨next, hr.issued _ hnext, hr.unused next hnext hfree, rfl⟩, ⟨rfl, hid⟩, .inr ⟨expected, hkept, rfl⟩⟩
    have hm := Moves.put (d := d) (t := e.delay) hi hadds
    refine ⟨⟨hm.inv hi fun token' ht sid r hr hne => ?_, fun _ hj => hm.rely hi hj⟩, ?_⟩
    · cases htok.symm.trans ht
      rw [kept_put]
      split
      · rename_i heq
        cases heq
        cases hkept.symm.trans hr
        exact absurd (not_not.mp hmatch).symm hne
      · exact ⟨r, hr, .refl r, rfl⟩
    -- the rest only tells the account's other connection and the listeners
    · have hkeep : ∀ (r : Record) (p p' : Past World), (∃ s ∈ p.2, Resumed hash i token r s) →
          (∀ s ∈ p.2, s ∈ p'.2) → ∃ s ∈ p'.2, Resumed hash i token r s :=
        fun r p p' ⟨s, hs, hres⟩ hsub => ⟨s, hsub s hs, hres⟩
      refine sound_quiet_keep (hkeep _) hid
        ⟨_, List.mem_cons_self .., rfl, ⟨expected, hold, (not_not.mp hmatch).symm, rfl⟩, hnew⟩ fun claimed p hp => ?_
      cases claimed with
      | error err => exact nofun
      | ok claimed =>
        refine sound_quiet_keep (hkeep _) trivial hp fun previousID p hp => ?_
        refine Pool.Safe.bind (Pool.Safe.mono (fun p _ hp => ?_)
          (sound_of_quiet (hkeep _) (uses_preemptPrevious (fun _ _ => trivial) (fun _ => trivial) (fun _ => trivial) ..) hp))
        refine sound_quiet_keep (hkeep _) trivial hp fun _ p hp c hc => ?_
        cases hc
        exact hp

def Call.token : Call → Option String
  | .resume _ _ token _ _ => some token
  | .resumeLogin _ _ _ token => some token
  | _ => none

theorem uses_bindAndReply (connectionID : String) (res : Except GoErr Created) :
    (bindAndReply connectionID res).Uses Quiet := by
  cases res with
  | error err => trivial
  | ok c => exact ⟨trivial, fun _ => trivial⟩

theorem sound_other (htok : tok i = none) (call : Call) (hcall : call.token = none) :
    Sound hash tok i (fun _ _ => True) (call.handler hash) p₀ := by
  have hret : ∀ {β : Type} {q : Prog Ans β} {f : β → Handler} {p : Past World},
      Sound hash tok i (fun _ _ => True) q p → (∀ b, (f b).Uses Quiet) →
        Sound hash tok i (fun _ _ => True) (q >>= f) p := by
    intro β q f p hq hf
    refine Pool.Safe.bind (hq.mono fun p b _ => ?_)
    exact sound_of_quiet (K := fun _ => True) (fun _ _ _ _ => trivial) (hf b) trivial
  cases call with
  | create m accountID connectionID now playerID => exact hret (sound_create htok m accountID connectionID now playerID) fun _ => trivial
  | disconnect m sessionID connectionID now epoch =>
    exact hret (sound_disconnect htok m sessionID connectionID now epoch) fun _ => trivial
  | expire k => exact hret (sound_expire htok k) fun _ => trivial
  | login m connectionID accountID playerID =>
    simp only [Call.handler, login, perform, Prog.perform_bind]
    exact sound_quiet trivial fun _ _ now _ _ _ _ =>
      hret (sound_create htok m accountID connectionID now playerID) (uses_bindAndReply connectionID)
  | deliver g => exact sound_quiet trivial fun _ _ _ _ _ _ _ => trivial
  | resume m sessionID token connectionID now => cases hcall
  | resumeLogin m connectionID sessionID token => cases hcall

theorem sound_presenter {token : String} (htok : tok i = some token) (call : Call)
    (hcall : call.token = some token) :
    Sound hash tok i (fun p res => ∀ c, res = .ok (.created c) → ∃ s ∈ p.2, Resumed hash i token c.record s)
      (call.handler hash) p₀ := by
  cases call with
  | resume m sessionID token' connectionID now =>
    cases hcall
    refine Pool.Safe.bind ((sound_resume htok m sessionID connectionID now).mono fun p res hp c hc => ?_)
    cases res with
    | error err => cases hc
    | ok c' =>
      cases hc
      exact hp _ rfl
  | resumeLogin m connectionID sessionID token' =>
    cases hcall
    simp only [Call.handler, resumeLogin, perform, Prog.perform_bind]
    split
    · exact nofun
    refine sound_quiet trivial fun _ _ now _ _ _ _ => ?_
    refine Pool.Safe.bind ((sound_resume htok m sessionID connectionID now).mono fun p res hp => ?_)
    cases res with
    | error err => exact nofun
    | ok c =>
      refine sound_quiet_keep (K := fun p => ∃ s ∈ p.2, Resumed hash i token c.record s)
        (fun _ _ ⟨s, hs, hres⟩ hsub => ⟨s, hsub s hs, hres⟩) trivial (hp c rfl) fun _ p hp c' hc => ?_
      cases hc
      exact hp
  | _ => cases hcall

end

/-! ## Runs -/

theorem inv_init (hash : String → String) (tok : Nat → Option String) (store : StoreKind) (gateways : Nat)
    (connections : AList fun _ : String => Connection) (clock : Time) :
    Inv hash tok (World.init store gateways connections clock, []) := by
  have hnone : ∀ u, Visited (World.init store gateways connections clock, []) u → ∀ k, u.kept k = none := by
    rintro u (rfl | ⟨m, hm, -⟩) k
    · rfl
    · cases hm
  refine ⟨fun k r hr => ?_, nofun, fun u hu sid r hr => ?_, fun _ u v hu hv sid sid' r r' hr => ?_,
    fun u hu sid r r' hr => ?_, .nil, fun sid r hr => ?_, nofun⟩
  · rw [hnone _ (.inl rfl)] at hr
    cases hr
  · rw [hnone u hu] at hr
    cases hr
  · rw [hnone u hu] at hr
    cases hr
  · rw [hnone u hu] at hr
    cases hr
  · rw [hnone _ (.inl rfl)] at hr
    cases hr

theorem Inv.epoch_ne {hash : String → String} {tok : Nat → Option String} {p : Past World} (hi : Inv hash tok p)
    {i j : Nat} {t t' : String} {r r' : Record} {m m' : Pool.Step World} (hm : m ∈ p.2) (hm' : m' ∈ p.2)
    (hr : Resumed hash i t r m) (hr' : Resumed hash j t' r' m') (hij : i ≠ j) (hsid : r.sessionID = r'.sessionID) :
    r.connectionEpoch ≠ r'.connectionEpoch := by
  have hne : m ≠ m' := by
    rintro rfl
    exact hij (hr.pid.symm.trans hr'.pid)
  obtain ⟨old, hold, -, hnext⟩ := hr.replaced
  obtain ⟨old', hold', -, hnext'⟩ := hr'.replaced
  have hsorted := List.Pairwise.forall_of_forall_of_flip (R := fun a b => a ≠ b → Ordered a b ∨ Ordered b a)
    (fun _ _ h => absurd rfl h) (hi.order.imp fun h _ => .inl h) (hi.order.imp fun h _ => .inr h)
  rcases hsorted hm hm' hne with h | h
  · have := h r.sessionID r' old (hsid ▸ kept_of_lookup hr'.stored) (kept_of_lookup hold)
    omega
  · have := h r'.sessionID r old' (hsid ▸ kept_of_lookup hr.stored) (kept_of_lookup hold')
    omega

def presents (calls : List Call) (i : Nat) : Option String := calls[i]?.bind Call.token

theorem exists_past (hash : String → String) (store : StoreKind) (gateways : Nat)
    (connections : AList fun _ : String => Connection) (clock : Time) (calls : List Call) (sched : List (Nat × Env)) :
    let s₀ := State.init hash (World.init store gateways connections clock) calls
    ∃ p : Past World, p.1 = (Pool.run exec s₀ sched).world ∧ Inv hash (presents calls) p ∧ p.2.length ≤ sched.length ∧
      (∀ i token c, presents calls i = some token → (Pool.run exec s₀ sched).answer i = some (.ok (.created c)) →
        ∃ m ∈ p.2, Resumed hash i token c.record m) ∧
      (∀ m ∈ p.2, m ∈ Pool.trace exec s₀ sched) ∧ ∀ m ∈ Pool.trace exec s₀ sched, m.old = m.new ∨ m ∈ p.2 := by
  intro s₀
  let post (i : Nat) (p : Past World) (res : Except GoErr Reply) : Prop :=
    ∀ token, presents calls i = some token → ∀ c, res = .ok (.created c) → ∃ m ∈ p.2, Resumed hash i token c.record m
  have hsound : ∀ i q, (calls.map (Call.handler hash))[i]? = some q →
      Sound hash (presents calls) i (post i) q (World.init store gateways connections clock, []) := by
    refine Pool.forall_map fun i call hcall => ?_
    have htok : presents calls i = call.token := by rw [presents, hcall, Option.bind_some]
    cases ht : call.token with
    | none =>
      exact (sound_other (htok.trans ht) call ht).mono fun _ _ _ _ h => (nomatch (htok.trans ht).symm.trans h)
    | some token =>
      refine (sound_presenter (htok.trans ht) call ht).mono fun _ _ hp token' h => ?_
      cases (htok.trans ht).symm.trans h
      exact hp
  obtain ⟨t, hrec, hgood, hlen, hsub, hsup⟩ :=
    Pool.safe_trace Rely.refl Rely.trans (inv_init hash _ store gateways connections clock) hsound (Pool.along_any _ sched)
  refine ⟨t.world, hrec.world, hgood.world, hlen, fun i token c htok hans => ?_, hsub, hsup⟩
  obtain ⟨p, hp, hr⟩ := hgood.ret i _ (hrec.procs ▸ Pool.answer_eq_some hans)
  obtain ⟨m, hm, hres⟩ := hp token htok c rfl
  exact ⟨m, hr.past m hm, hres⟩

/-- The epoch of a session is at most the number of steps of the run, so that the
code's `uint64` does not wrap within the first `2 ^ 64` of them. -/
theorem connectionEpoch_le_steps (hash : String → String) (store : StoreKind)
    (gateways : Nat) (connections : AList fun _ : String => Connection) (clock : Time) (calls : List Call)
    (sched : List (Nat × Env)) (sid : String) (r : Record)
    (hr : (Pool.run exec (State.init hash (World.init store gateways connections clock) calls) sched).world.lookup
      (.session sid) = some r) : r.connectionEpoch ≤ sched.length := by
  obtain ⟨p, hp, hi, hlen, -⟩ := exists_past hash store gateways connections clock calls sched
  exact Nat.le_trans (hi.bound sid r (hp ▸ kept_of_lookup hr)) hlen

/-- In every run of any number of managers over one store: a token gets one
caller through; each success replaces one epoch of a session by the next; two
successes for one session return different epochs; and at every step the stored
epochs do not fall, and a handler leaves alone the sessions whose token it does
not present. -/
theorem resume_token_used_once (hash : String → String) (hinj : Function.Injective hash) (store : StoreKind)
    (gateways : Nat) (connections : AList fun _ : String => Connection) (clock : Time) (calls : List Call)
    (sched : List (Nat × Env)) :
    let s₀ := State.init hash (World.init store gateways connections clock) calls
    let s := Pool.run exec s₀ sched
    let steps := Pool.trace exec s₀ sched
    (∀ i j token c c', presents calls i = some token → presents calls j = some token →
      s.answer i = some (.ok (.created c)) → s.answer j = some (.ok (.created c')) → i = j) ∧
    (∀ i token c, presents calls i = some token → s.answer i = some (.ok (.created c)) →
      ∃ m ∈ steps, Resumed hash i token c.record m) ∧
    (∀ i j token token' c c', presents calls i = some token → presents calls j = some token' → i ≠ j →
      s.answer i = some (.ok (.created c)) → s.answer j = some (.ok (.created c')) →
      c.record.sessionID = c'.record.sessionID → c.record.connectionEpoch ≠ c'.record.connectionEpoch) ∧
    ∀ m ∈ steps, Allowed hash (presents calls) m := by
  intro s₀ s steps
  obtain ⟨p, -, hi, -, hsuccess, hsub, hsup⟩ := exists_past hash store gateways connections clock calls sched
  have hepochs : ∀ i j token token' c c', presents calls i = some token → presents calls j = some token' → i ≠ j →
      s.answer i = some (.ok (.created c)) → s.answer j = some (.ok (.created c')) →
      c.record.sessionID = c'.record.sessionID → c.record.connectionEpoch ≠ c'.record.connectionEpoch := by
    intro i j token token' c c' htok htok' hij hans hans'
    obtain ⟨m, hm, hres⟩ := hsuccess i token c htok hans
    obtain ⟨m', hm', hres'⟩ := hsuccess j token' c' htok' hans'
    exact hi.epoch_ne hm hm' hres hres' hij
  refine ⟨fun i j token c c' htok htok' hans hans' => ?_, fun i token c htok hans => ?_, hepochs, fun m hm => ?_⟩
  · by_contra hij
    obtain ⟨m, hm, hres⟩ := hsuccess i token c htok hans
    obtain ⟨m', hm', hres'⟩ := hsuccess j token c' htok' hans'
    obtain ⟨old, hold, hhash, hnext⟩ := hres.replaced
    obtain ⟨old', hold', hhash', hnext'⟩ := hres'.replaced
    -- both replaced the epoch that the token belongs to
    obtain ⟨hsid, hepoch⟩ := hi.one hinj m.old m'.old (.inr ⟨m, hm, .inl rfl⟩) (.inr ⟨m', hm', .inl rfl⟩) _ _ old old'
      (kept_of_lookup hold) (kept_of_lookup hold') (hhash.trans hhash'.symm)
    exact hepochs i j token token c c' htok htok' hij hans hans' hsid (by rw [hnext, hnext', hepoch])
  · obtain ⟨m, hm, hres⟩ := hsuccess i token c htok hans
    exact ⟨m, hsub m hm, hres⟩
  · rcases hsup m hm with heq | hm'
    · refine ⟨fun sid r r' hr hr' => ?_, fun _ _ sid r hr _ => ⟨r, heq ▸ hr, .refl r, rfl⟩⟩
      rw [heq] at hr
      rw [Option.some.inj (hr.symm.trans hr')]
    · exact hi.allowed m hm'

def loginThenResume : List Call :=
  [.login gateway1 "c1" "account" "player",
    .resume gateway2 drawn1 drawn2 "c2" 5]

def loginThenResumeOrder : List (Nat × Env) :=
  [(0, {}), (0, { id := drawn1 }), (0, { id := drawn2 }),
    (0, {}), (0, {}), (0, {}), (0, {}), (0, {}),
    (1, {}), (1, { id := drawn3 }), (1, {}), (1, {}), (1, {}), (1, {}), (1, {}), (1, {}),
    (1, {})]

theorem resume_token_used_once_after_login :
    Function.Injective (id : String → String) ∧
    let s₀ := State.init id (World.init .redis 2 ∅ 0) loginThenResume
    ∃ c, (Pool.run exec s₀ loginThenResumeOrder).answer 1 = some (.ok (.created c)) ∧ c.record.connectionEpoch = 2 ∧
      ∃ m ∈ Pool.trace exec s₀ loginThenResumeOrder, Resumed id 1 drawn2 c.record m := by
  refine ⟨Function.injective_id, ⟨{
    sessionID := drawn1, accountID := "account", playerID := "player"
    gatewayInstanceID := "gateway-2", connectionID := "c2", connectionEpoch := 2, state := .authenticated
    resumeTokenHash := drawn3, expireAt := 3600000000005 },
    drawn3⟩, by decide, rfl, ?_⟩
  exact (resume_token_used_once id Function.injective_id .redis 2 ∅ 0 loginThenResume loginThenResumeOrder).2.1 1
    drawn2 _ rfl (by decide)

theorem connectionEpoch_le_steps_resumed :
    ∃ r, (Pool.run exec (State.init id (World.init .redis 2 ∅ 0) loginThenResume) loginThenResumeOrder).world.lookup
      (.session drawn1) = some r ∧ r.connectionEpoch ≤ loginThenResumeOrder.length := by
  obtain ⟨r, hr⟩ := Option.isSome_iff_exists.mp (by decide :
    ((Pool.run exec (State.init id (World.init .redis 2 ∅ 0) loginThenResume) loginThenResumeOrder).world.lookup
      (.session drawn1)).isSome = true)
  exact ⟨r, hr, connectionEpoch_le_steps id .redis 2 ∅ 0 _ _ _ r hr⟩

end GameServer.Gateway
