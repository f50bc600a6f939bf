import GameServer.UserCenterExec
import GameServer.Trace
import Mathlib.Logic.Relation

/-!
# The user center: refresh tokens are used once

A token changes in one way only: it is revoked, by `Rotate` or by `Revoke`.
Over any interleaving each token is revoked by at most one step, a request that
presents a token succeeds only by that step, and a replacement belongs to the
account and the installation of the token it replaces.
-/

namespace GameServer.UserCenter

open Pool (Past Step Visited)

def RefreshToken.issued (t : RefreshToken) : RefreshToken := { t with revokedAt := none }

def Consumes (id : String) (m : Step World) : Prop :=
  ∃ t ∈ m.old.tokens, t.id = id ∧ t.revokedAt = none ∧ ∃ t' ∈ m.new.tokens, t'.id = id ∧ t'.revokedAt ≠ none

namespace Token

attribute [local irreducible] trimSpace

/-! ## Invariant -/

section
variable (c : DomainAuthComponent)

def Unused (i : Nat) (x : String) (p : Past World) : Prop :=
  (i, x) ∈ p.1.drawn ∧ ∀ u, Visited p u → ∀ t ∈ u.tokens, t.id ≠ x ∧ t.tokenHash ≠ c.authHashToken x

structure Inv (p : Past World) : Prop where
  owner : ∀ i j x, (i, x) ∈ p.1.drawn → (j, x) ∈ p.1.drawn → i = j
  origin : ∀ u, Visited p u → ∀ t ∈ u.tokens, ∃ j raw, (j, t.id) ∈ p.1.drawn ∧ (j, raw) ∈ p.1.drawn ∧
    c.authHashToken raw = t.tokenHash
  same : ∀ u v, Visited p u → Visited p v → ∀ t ∈ u.tokens, ∀ t' ∈ v.tokens,
    t.id = t'.id ∨ t.tokenHash = t'.tokenHash → t.issued = t'.issued
  gone : ∀ m ∈ p.2, ∀ id, Consumes id m → ∀ t ∈ p.1.tokens, t.id = id → t.revokedAt ≠ none
  once : p.2.Pairwise fun m n => ∀ id, ¬ (Consumes id m ∧ Consumes id n)

structure Rely (i : Nat) (p p' : Past World) : Prop where
  visited : ∀ u, Visited p u → Visited p' u
  steps : ∀ m ∈ p.2, m ∈ p'.2
  drawn : ∀ x ∈ p.1.drawn, x ∈ p'.1.drawn
  mine : ∀ x, (i, x) ∈ p'.1.drawn → (i, x) ∈ p.1.drawn
  tokens : ∀ u, Visited p' u → ∀ t ∈ u.tokens, (i, t.id) ∈ p'.1.drawn → ∃ v, Visited p v ∧ ∃ t' ∈ v.tokens, t'.id = t.id

structure Moves (i : Nat) (p : Past World) (w : World) : Prop where
  drawn : w.drawn = p.1.drawn ∨ ∃ x, (∀ y ∈ p.1.drawn, y.2 ≠ x) ∧ w.drawn = (i, x) :: p.1.drawn
  tokens : ∀ t ∈ w.tokens,
    (∃ t₀ ∈ p.1.tokens, t₀.issued = t.issued ∧ (t₀.revokedAt ≠ none → t.revokedAt ≠ none)) ∨
      (Unused c i t.id p ∧ ∃ raw, Unused c i raw p ∧ c.authHashToken raw = t.tokenHash)

variable {c} {i : Nat} {p p' : Past World} {w : World}

variable {t t' : RefreshToken}

theorem issued_id (h : t.issued = t'.issued) : t.id = t'.id := (RefreshToken.mk.inj h).1

theorem issued_accountID (h : t.issued = t'.issued) : t.accountID = t'.accountID :=
  (RefreshToken.mk.inj h).2.1

theorem issued_tokenHash (h : t.issued = t'.issued) : t.tokenHash = t'.tokenHash :=
  (RefreshToken.mk.inj h).2.2.1

theorem issued_installID (h : t.issued = t'.issued) : t.installID = t'.installID :=
  (RefreshToken.mk.inj h).2.2.2.1

theorem Rely.refl (p : Past World) : Rely i p p :=
  ⟨fun _ h => h, fun _ h => h, fun _ h => h, fun _ h => h, fun u hu t ht _ => ⟨u, hu, t, ht, rfl⟩⟩

theorem Rely.trans {p'' : Past World} (h : Rely i p p') (h' : Rely i p' p'') : Rely i p p'' := by
  refine ⟨fun u hu => h'.visited u (h.visited u hu), fun m hm => h'.steps m (h.steps m hm),
    fun x hx => h'.drawn x (h.drawn x hx), fun x hx => h.mine x (h'.mine x hx), fun u hu t ht hi => ?_⟩
  obtain ⟨v, hv, t', ht', heq⟩ := h'.tokens u hu t ht hi
  obtain ⟨v', hv', t'', ht'', heq'⟩ := h.tokens v hv t' ht' (heq ▸ h'.mine _ hi)
  exact ⟨v', hv', t'', ht'', heq'.trans heq⟩

theorem Moves.drawn_mono (hm : Moves c i p w) : ∀ x ∈ p.1.drawn, x ∈ w.drawn := by
  intro x hx
  rcases hm.drawn with h | ⟨y, _, h⟩
  · exact h ▸ hx
  · exact h ▸ List.mem_cons_of_mem _ hx

theorem Moves.source (hi : Inv c p) (hm : Moves c i p w) (ht : t ∈ w.tokens) {u : World} (hu : Visited p u)
    (ht' : t' ∈ u.tokens) (h : t.id = t'.id ∨ t.tokenHash = t'.tokenHash) :
    t.issued = t'.issued := by
  rcases hm.tokens t ht with ⟨t₀, ht₀, heq, _⟩ | ⟨hid, raw, hraw, hhash⟩
  · rw [← heq]
    refine hi.same _ _ (.inl rfl) hu _ ht₀ _ ht' ?_
    rw [issued_id heq, issued_tokenHash heq]
    exact h
  · rcases h with h | h
    · exact absurd h.symm (hid.2 u hu t' ht').1
    · exact absurd (h.symm.trans hhash.symm) (hraw.2 u hu t' ht').2

theorem Moves.owner (hi : Inv c p) (hm : Moves c i p w) (a b : Nat) (x : String) (ha : (a, x) ∈ w.drawn)
    (hb : (b, x) ∈ w.drawn) : a = b := by
  rcases hm.drawn with h | ⟨y, hy, h⟩
  · rw [h] at ha hb
    exact hi.owner a b x ha hb
  · rw [h] at ha hb
    rcases List.mem_cons.mp ha with ha' | ha' <;> rcases List.mem_cons.mp hb with hb' | hb'
    · cases ha'; cases hb'; rfl
    · cases ha'; exact absurd rfl (hy _ hb')
    · cases hb'; exact absurd rfl (hy _ ha')
    · exact hi.owner a b x ha' hb'

theorem Moves.origin (hi : Inv c p) (hm : Moves c i p w) (ht : t ∈ w.tokens) :
    ∃ j raw, (j, t.id) ∈ p.1.drawn ∧ (j, raw) ∈ p.1.drawn ∧ c.authHashToken raw = t.tokenHash := by
  rcases hm.tokens t ht with ⟨t₀, ht₀, heq, _⟩ | ⟨hid, raw, hraw, hhash⟩
  · rw [← issued_id heq, ← issued_tokenHash heq]
    exact hi.origin _ (.inl rfl) t₀ ht₀
  · exact ⟨i, raw, hid.1, hraw.1, hhash⟩

theorem Moves.revoked (hi : Inv c p) (hm : Moves c i p w) (ht : t ∈ w.tokens) {m : Step World} (hmem : m ∈ p.2)
    (hc : Consumes t.id m) : t.revokedAt ≠ none := by
  rcases hm.tokens t ht with ⟨t₀, ht₀, heq, hrev⟩ | ⟨hid, _⟩
  · exact hrev (hi.gone m hmem t.id hc t₀ ht₀ (issued_id heq))
  · obtain ⟨t', ht', hid', _⟩ := hc
    exact absurd hid' (hid.2 m.old (.inr ⟨m, hmem, .inl rfl⟩) t' ht').1

theorem Moves.inv (hi : Inv c p) (hm : Moves c i p w) : Inv c (w, ⟨i, p.1, w⟩ :: p.2) := by
  refine ⟨hm.owner hi, fun u hu t ht => ?_, fun u v hu hv t ht t' ht' h => ?_, fun m hmem id hc t ht hid => ?_,
    List.pairwise_cons.mpr ⟨fun n hn id ⟨hc, hcn⟩ => ?_, hi.once⟩⟩
  · have hold : ∃ j raw, (j, t.id) ∈ p.1.drawn ∧ (j, raw) ∈ p.1.drawn ∧ c.authHashToken raw = t.tokenHash := by
      rcases Pool.visited_step hu with rfl | hu
      · exact hm.origin hi ht
      · exact hi.origin u hu t ht
    obtain ⟨j, raw, hj, hraw, hhash⟩ := hold
    exact ⟨j, raw, hm.drawn_mono _ hj, hm.drawn_mono _ hraw, hhash⟩
  · rcases Pool.visited_step hu with heq | hu' <;> rcases Pool.visited_step hv with heq' | hv'
    · subst heq heq'
      rw [Coll.eq_of_clash ht ht' (by simpa [refreshTokenIndexes] using h)]
    · subst heq
      exact hm.source hi ht hv' ht' h
    · subst heq'
      exact (hm.source hi ht' hu' ht (h.imp Eq.symm Eq.symm)).symm
    · exact hi.same u v hu' hv' t ht t' ht' h
  · rcases List.mem_cons.mp hmem with rfl | hmem
    · obtain ⟨_, _, _, _, t', ht', hid', hrev⟩ := hc
      rwa [Coll.eq_of_clash ht ht' (by simp [refreshTokenIndexes, hid, hid'])]
    · subst hid
      exact hm.revoked hi ht hmem hc
  · -- what an earlier step revoked is no longer there to be revoked
    obtain ⟨t, ht, hid, hnone, _⟩ := hc
    exact hi.gone n hn id hcn t ht hid hnone

theorem Moves.rely (hi : Inv c p) (hm : Moves c i p w) {j : Nat} (hj : j ≠ i) : Rely j p (w, ⟨i, p.1, w⟩ :: p.2) := by
  have hmine : ∀ x, (j, x) ∈ w.drawn → (j, x) ∈ p.1.drawn := by
    intro x hx
    rcases hm.drawn with h | ⟨y, _, h⟩
    · exact h ▸ hx
    · rw [h] at hx
      rcases List.mem_cons.mp hx with hx | hx
      · cases hx; exact absurd rfl hj
      · exact hx
  refine ⟨fun u hu => hu.push i w, fun m hm => List.mem_cons_of_mem _ hm, hm.drawn_mono, hmine,
    fun u hu t ht hjd => ?_⟩
  rcases Pool.visited_step hu with rfl | hu
  · rcases hm.tokens t ht with ⟨t₀, ht₀, heq, _⟩ | ⟨hid, _⟩
    · exact ⟨p.1, .inl rfl, t₀, ht₀, issued_id heq⟩
    · exact absurd (hi.owner _ _ _ (hmine _ hjd) hid.1) hj
  · exact ⟨u, hu, t, ht, rfl⟩

end

/-! ## What a handler knows

`At` lists the strings it has drawn and not used, and tokens it has read. -/

section
variable (c : DomainAuthComponent)

def Seen (t : RefreshToken) (p : Past World) : Prop := ∃ u, Visited p u ∧ t ∈ u.tokens

structure At (i : Nat) (xs : List String) (ts : List RefreshToken) (p : Past World) : Prop where
  unused : ∀ x ∈ xs, Unused c i x p
  seen : ∀ t ∈ ts, Seen t p

variable {c} {i : Nat} {p p' : Past World} {w : World} {x : String} {xs : List String} {ts : List RefreshToken}

theorem Unused.rely (hinj : Function.Injective c.authHashToken) (hu : Unused c i x p) (hr : Rely i p p')
    (hi : Inv c p') : Unused c i x p' := by
  have hx := hr.drawn _ hu.1
  have hid : ∀ u, Visited p' u → ∀ t ∈ u.tokens, (i, t.id) ∈ p'.1.drawn →
      t.id ≠ x ∧ t.tokenHash ≠ c.authHashToken x := by
    intro u hv t ht hmine
    obtain ⟨v, hv', t', ht', heq⟩ := hr.tokens u hv t ht hmine
    have hsame := hi.same v u (hr.visited v hv') hv t' ht' t ht (.inl heq)
    rw [← issued_id hsame, ← issued_tokenHash hsame]
    exact hu.2 v hv' t' ht'
  refine ⟨hx, fun u hv t ht => ⟨fun heq => (hid u hv t ht (heq ▸ hx)).1 heq, fun heq => ?_⟩⟩
  obtain ⟨j, raw, hj, hraw, hhash⟩ := hi.origin u hv t ht
  obtain rfl : raw = x := hinj (hhash.trans heq)
  obtain rfl : j = i := hi.owner j i raw hraw hx
  exact (hid u hv t ht hj).2 heq

theorem Unused.step (hu : Unused c i x p) (hd : ∀ y ∈ p.1.drawn, y ∈ w.drawn)
    (ht : ∀ t ∈ w.tokens, ∃ t₀ ∈ p.1.tokens, t₀.issued = t.issued) : Unused c i x (w, ⟨i, p.1, w⟩ :: p.2) := by
  refine ⟨hd _ hu.1, fun u hv t htu => ?_⟩
  rcases Pool.visited_step hv with rfl | hv
  · obtain ⟨t₀, ht₀, heq⟩ := ht t htu
    rw [← issued_id heq, ← issued_tokenHash heq]
    exact hu.2 _ (.inl rfl) t₀ ht₀
  · exact hu.2 u hv t htu

theorem Seen.push {t : RefreshToken} (h : Seen t p) (w : World) : Seen t (w, ⟨i, p.1, w⟩ :: p.2) := by
  obtain ⟨u, hu, ht⟩ := h
  exact ⟨u, hu.push i w, ht⟩

theorem At.rely (hinj : Function.Injective c.authHashToken) (h : At c i xs ts p) (hr : Rely i p p') (hi : Inv c p') :
    At c i xs ts p' := by
  refine ⟨fun x hx => (h.unused x hx).rely hinj hr hi, fun t ht => ?_⟩
  obtain ⟨u, hu, htu⟩ := h.seen t ht
  exact ⟨u, hr.visited u hu, htu⟩

theorem At.step (h : At c i xs ts p) (hd : ∀ y ∈ p.1.drawn, y ∈ w.drawn)
    (ht : ∀ t ∈ w.tokens, ∃ t₀ ∈ p.1.tokens, t₀.issued = t.issued) : At c i xs ts (w, ⟨i, p.1, w⟩ :: p.2) :=
  ⟨fun x hx => (h.unused x hx).step hd ht, fun t ht => (h.seen t ht).push w⟩

theorem At.spend (h : At c i xs ts p) (w : World) : At c i [] ts (w, ⟨i, p.1, w⟩ :: p.2) :=
  ⟨fun _ hx => (nomatch hx), fun t ht => (h.seen t ht).push w⟩

def Spends (i : Nat) (old : RefreshToken) (new : List RefreshToken) (p : Past World) : Prop :=
  ∃ m ∈ p.2, m.pid = i ∧ (∃ t ∈ m.old.tokens, t.issued = old.issued) ∧ Consumes old.id m ∧ ∀ t ∈ new, t ∈ m.new.tokens

theorem at_nil (p : Past World) : At c i [] [] p := ⟨fun _ hx => (nomatch hx), fun _ ht => (nomatch ht)⟩

end

/-! ## Rules for the commands -/

section
variable (c : DomainAuthComponent)

abbrev Sound {α : Type} (i : Nat) (post : Past World → α → Prop) (prog : Prog Ans α) (p : Past World) : Prop :=
  Pool.Safe (Pool.record (exec c)) (fun _ _ _ _ => True) (Inv c) Rely i post prog p

variable {c} (hinj : Function.Injective c.authHashToken) {α : Type} {i : Nat} {p₀ : Past World}
  {post : Past World → α → Prop} {xs : List String} {ts : List RefreshToken}
include hinj

theorem sound_call {cmd : Cmd} {k : Ans cmd → Prog Ans α} (hat : At c i xs ts p₀)
    (h : ∀ e p r w, Inv c p → At c i xs ts p → exec c i e p.1 cmd = some (r, w) →
      Moves c i p w ∧ Sound c i post (k r) (w, ⟨i, p.1, w⟩ :: p.2)) : Sound c i post (.call cmd k) p₀ := by
  intro e p r p' hr hi _ hx
  obtain ⟨w, hexec, rfl⟩ := Pool.record_eq_some hx
  obtain ⟨hm, hk⟩ := h e p r w hi (hat.rely hinj hr hi) hexec
  exact ⟨hm.inv hi, fun j hj => hm.rely hi hj, hk⟩

theorem sound_drop {cmd : Cmd} {k : Ans cmd → Prog Ans α} (hat : At c i xs ts p₀)
    (hcmd : ∀ e w r w', exec c i e w cmd = some (r, w') → w'.drawn = w.drawn ∧ ∀ t ∈ w'.tokens, t ∈ w.tokens)
    (hk : ∀ r p, At c i xs ts p → Sound c i post (k r) p) : Sound c i post (.call cmd k) p₀ := by
  refine sound_call hinj hat fun e p r w hi hat hx => ?_
  obtain ⟨hd, ht⟩ := hcmd e p.1 r w hx
  exact ⟨⟨.inl hd, fun t htw => .inl ⟨t, ht t htw, rfl, id⟩⟩,
    hk r _ (hat.step (fun y hy => hd ▸ hy) fun t htw => ⟨t, ht t htw, rfl⟩)⟩

theorem sound_quiet {cmd : Cmd} {k : Ans cmd → Prog Ans α} (hcmd : cmd.sparesAuth) (hat : At c i xs ts p₀)
    (hk : ∀ r p, At c i xs ts p → Sound c i post (k r) p) : Sound c i post (.call cmd k) p₀ := by
  refine sound_drop hinj hat (fun e w r w' hx => ?_) hk
  rcases exec_effect hx with rfl | ⟨r₀, hx⟩
  · exact ⟨rfl, fun _ ht => ht⟩
  · have heq := answer_sparesAuth hcmd hx
    have ht : w'.tokens = w.tokens := by rw [heq]; rfl
    exact ⟨by rw [heq]; rfl, fun t htw => ht ▸ htw⟩

theorem sound_expireToken {id : String} {k : Unit → Prog Ans α} (hat : At c i xs ts p₀)
    (hk : ∀ r p, At c i xs ts p → Sound c i post (k r) p) : Sound c i post (.call (.expireToken id) k) p₀ := by
  refine sound_drop hinj hat (fun e w r w' hx => ?_) hk
  rcases exec_effect hx with rfl | ⟨r₀, hx⟩
  · exact ⟨rfl, fun _ ht => ht⟩
  · cases hx
    exact ⟨rfl, fun t ht => Coll.mem_of_mem_deleteOne ht⟩

theorem sound_draw {cmd : Cmd} {k : Ans cmd → Prog Ans α} (toString? : Ans cmd → Except GoErr String)
    (hat : At c i xs ts p₀) (hcmd : ∀ e w r w', exec c i e w cmd = some (r, w') → Draws i w w' (toString? r))
    (hk : ∀ r p, At c i xs ts p → (∀ x, toString? r = .ok x → At c i (x :: xs) ts p) → Sound c i post (k r) p) :
    Sound c i post (.call cmd k) p₀ := by
  refine sound_call hinj hat fun e p r w hi hat hx => ?_
  obtain ⟨_, _, htok, _, hdraw⟩ := hcmd e p.1 r w hx
  have hkeep : ∀ t ∈ w.tokens, ∃ t₀ ∈ p.1.tokens, t₀.issued = t.issued := fun t ht => ⟨t, htok ▸ ht, rfl⟩
  have hdrawn : w.drawn = p.1.drawn ∨ ∃ x, (∀ y ∈ p.1.drawn, y.2 ≠ x) ∧ w.drawn = (i, x) :: p.1.drawn := by
    rcases hdraw with ⟨_, h⟩ | ⟨x, _, hx, h, _⟩
    · exact .inl h
    · exact .inr ⟨x, hx, h⟩
  have hm : Moves c i p w := ⟨hdrawn, fun t ht => .inl ⟨t, htok ▸ ht, rfl, id⟩⟩
  have hat' := hat.step hm.drawn_mono hkeep
  refine ⟨hm, hk r _ hat' fun x hr => ⟨List.forall_mem_cons.mpr ⟨?_, hat'.unused⟩, hat'.seen⟩⟩
  rcases hdraw with ⟨⟨err, herr⟩, _⟩ | ⟨y, _, hfresh, hd, hy⟩
  · rw [herr] at hr; cases hr
  · obtain rfl : y = x := by
      rcases hy with hy | ⟨err, herr⟩
      · rw [hy] at hr; exact Except.ok.inj hr
      · rw [herr] at hr; cases hr
    refine ⟨hd ▸ List.mem_cons_self .., fun u hu t ht => ?_⟩
    -- every token there was is made of strings drawn before
    obtain ⟨j, raw, hj, hraw, hhash⟩ : ∃ j raw, (j, t.id) ∈ p.1.drawn ∧ (j, raw) ∈ p.1.drawn ∧
        c.authHashToken raw = t.tokenHash := by
      rcases Pool.visited_step hu with rfl | hu
      · exact hi.origin _ (.inl rfl) t (htok ▸ ht)
      · exact hi.origin u hu t ht
    exact ⟨hfresh _ hj, fun heq => hfresh _ hraw (hinj (hhash.trans heq))⟩

theorem sound_newUUID {k : Except GoErr String → Prog Ans α} (hat : At c i xs ts p₀)
    (hk : ∀ r p, At c i xs ts p → (∀ x, r = .ok x → At c i (x :: xs) ts p) → Sound c i post (k r) p) :
    Sound c i post (.call .newUUID k) p₀ :=
  sound_draw hinj id hat (fun _ _ _ _ => exec_newUUID) hk

theorem sound_readRandom {k : Except GoErr String → Prog Ans α} (hat : At c i xs ts p₀)
    (hk : ∀ r p, At c i xs ts p → (∀ x, r = .ok x → At c i (x :: xs) ts p) → Sound c i post (k r) p) :
    Sound c i post (.call .readRandom k) p₀ :=
  sound_draw hinj id hat (fun _ _ _ _ => exec_readRandom) hk

theorem sound_findValid {tokenHash : String} {now : Time} {k : Except GoErr RefreshToken → Prog Ans α}
    (hat : At c i xs ts p₀)
    (hk : ∀ r p, At c i xs ts p → (∀ t, r = .ok t → At c i xs (t :: ts) p ∧ t.tokenHash = tokenHash) →
      Sound c i post (k r) p) : Sound c i post (.call (.findValid tokenHash now) k) p₀ := by
  refine sound_call hinj hat fun e p r w hi hat hx => ?_
  obtain ⟨rfl, hok⟩ := exec_findValid hx
  have hat' := hat.step (w := p.1.tick e.delay) (fun _ hy => hy) fun t ht => ⟨t, ht, rfl⟩
  refine ⟨⟨.inl rfl, fun t ht => .inl ⟨t, ht, rfl, id⟩⟩, hk r _ hat' fun t hr => ?_⟩
  obtain ⟨hmem, hhash, _⟩ := findValid_ok (hok t hr)
  exact ⟨⟨hat'.unused, List.forall_mem_cons.mpr ⟨⟨_, .inl rfl, hmem⟩, hat'.seen⟩⟩, hhash⟩

theorem sound_store {cmd : Cmd} {k : Ans cmd → Prog Ans α} {t : RefreshToken} {raw : String} (hat : At c i xs ts p₀)
    (hid : t.id ∈ xs) (hraw : raw ∈ xs) (hhash : t.tokenHash = c.authHashToken raw)
    (hcmd : ∀ e w r w', exec c i e w cmd = some (r, w') → w'.drawn = w.drawn ∧ ∀ x ∈ w'.tokens, x = t ∨ x ∈ w.tokens)
    (hk : ∀ r p, At c i [] ts p → Sound c i post (k r) p) : Sound c i post (.call cmd k) p₀ := by
  refine sound_call hinj hat fun e p r w hi hat hx => ?_
  obtain ⟨hd, ht⟩ := hcmd e p.1 r w hx
  refine ⟨⟨.inl hd, fun x hxw => ?_⟩, hk r _ (hat.spend w)⟩
  rcases ht x hxw with rfl | hx
  · exact .inr ⟨hat.unused _ hid, raw, hat.unused _ hraw, hhash.symm⟩
  · exact .inl ⟨x, hx, rfl, id⟩

variable {k : Except GoErr Unit → Prog Ans α}

theorem sound_insertToken {t : RefreshToken} {raw : String} (hat : At c i xs ts p₀) (hid : t.id ∈ xs)
    (hraw : raw ∈ xs) (hhash : t.tokenHash = c.authHashToken raw)
    (hk : ∀ r p, At c i [] ts p → Sound c i post (k r) p) : Sound c i post (.call (.insertToken t) k) p₀ := by
  refine sound_store hinj hat hid hraw hhash (fun e w r w' hx => ?_) hk
  rcases exec_insertToken hx with ⟨_, rfl⟩ | hok
  · exact ⟨rfl, fun x hx => .inr hx⟩
  · obtain ⟨heq, hmem⟩ := insertToken_ok hok
    exact ⟨by rw [heq]; rfl, fun x hx => (hmem x).mp hx⟩

theorem sound_createAccountTx {a : Account} {d : Identity} {t : RefreshToken} {raw : String} (hat : At c i xs ts p₀)
    (hid : t.id ∈ xs) (hraw : raw ∈ xs) (hhash : t.tokenHash = c.authHashToken raw)
    (hk : ∀ r p, At c i [] ts p → Sound c i post (k r) p) :
    Sound c i post (.call (.createAccountTx a d t) k) p₀ := by
  refine sound_store hinj hat hid hraw hhash (fun e w r w' hx => ?_) hk
  rcases exec_createAccountTx hx with ⟨_, rfl⟩ | hok
  · exact ⟨rfl, fun x hx => .inr hx⟩
  · obtain ⟨heq, hmem⟩ := createAccountTx_ok hok
    exact ⟨by rw [heq]; rfl, fun x hx => (hmem x).mp hx⟩

theorem sound_spend {cmd : Cmd} {k : Ans cmd → Prog Ans α} {old : RefreshToken} {new : List RefreshToken}
    (ok : Ans cmd → Prop) (hat : At c i xs (old :: ts) p₀)
    (hnew : ∀ t ∈ new, t.id ∈ xs ∧ ∃ raw ∈ xs, t.tokenHash = c.authHashToken raw)
    (hcmd : ∀ e w r w', exec c i e w cmd = some (r, w') → w'.drawn = w.drawn ∧
      ((∀ x ∈ w'.tokens, x ∈ w.tokens) ∧ ¬ ok r ∨ ∃ now, ∃ t ∈ w.tokens, t.id = old.id ∧ t.revokedAt = none ∧
        t.revokedFrom now ∈ w'.tokens ∧ (∀ x ∈ new, x ∈ w'.tokens) ∧
        ∀ x ∈ w'.tokens, x ∈ new ∨ x ∈ w.tokens ∨ x = t.revokedFrom now))
    (hk : ∀ r p, (ok r → Spends i old new p) → Sound c i post (k r) p) : Sound c i post (.call cmd k) p₀ := by
  refine sound_call hinj hat fun e p r w hi hat hx => ?_
  obtain ⟨hd, h⟩ := hcmd e p.1 r w hx
  rcases h with ⟨hsub, hnot⟩ | ⟨now, t, ht, hid, hnone, hrev, hstored, hmem⟩
  · exact ⟨⟨.inl hd, fun x hxw => .inl ⟨x, hsub x hxw, rfl, id⟩⟩, hk r _ fun hok => absurd hok hnot⟩
  · have hissued : t.issued = old.issued := by
      obtain ⟨u, hu, hold⟩ := hat.seen old (List.mem_cons_self ..)
      exact hi.same _ u (.inl rfl) hu t ht old hold (.inl hid)
    have hm : Moves c i p w := by
      refine ⟨.inl hd, fun x hxw => ?_⟩
      rcases hmem x hxw with hx | hx | rfl
      · obtain ⟨hxid, raw, hraw, hhash⟩ := hnew x hx
        exact .inr ⟨hat.unused _ hxid, raw, hat.unused _ hraw, hhash.symm⟩
      · exact .inl ⟨x, hx, rfl, id⟩
      · exact .inl ⟨t, ht, rfl, fun _ => Option.some_ne_none now⟩
    refine ⟨hm, hk r _ fun _ => ⟨⟨i, p.1, w⟩, List.mem_cons_self .., rfl, ⟨t, ht, hissued⟩, ?_, hstored⟩⟩
    exact ⟨t, ht, hid, hnone, _, hrev, hid, Option.some_ne_none now⟩

theorem sound_revoke {old : RefreshToken} {now : Time} (hat : At c i xs (old :: ts) p₀)
    (hk : ∀ r p, (r = .ok () → Spends i old [] p) → Sound c i post (k r) p) :
    Sound c i post (.call (.revoke old.id now) k) p₀ := by
  refine sound_spend hinj (fun r => r = .ok ()) hat (fun _ ht => absurd ht List.not_mem_nil) (fun e w r w' hx => ?_) hk
  rcases exec_revoke hx with ⟨⟨err, rfl⟩, rfl⟩ | hok
  · exact ⟨rfl, .inl ⟨fun x hx => hx, fun h => by cases h⟩⟩
  · obtain ⟨t, ht, hid, hnone, heq, hmem⟩ := revoke_ok hok
    refine ⟨by rw [heq]; rfl, .inr ⟨now, t, ht, hid, hnone, (hmem _).mpr (.inr rfl), fun _ hx => (nomatch hx), ?_⟩⟩
    exact fun x hx => .inr (((hmem x).mp hx).imp_left And.left)

theorem sound_rotateTx {old t : RefreshToken} {now : Time} {raw : String} (hat : At c i xs (old :: ts) p₀)
    (hid : t.id ∈ xs) (hraw : raw ∈ xs) (hhash : t.tokenHash = c.authHashToken raw)
    (hk : ∀ r p, (r = .ok () → Spends i old [t] p) → Sound c i post (k r) p) :
    Sound c i post (.call (.rotateTx old.id now t) k) p₀ := by
  refine sound_spend hinj (fun r => r = .ok ()) hat ?_ (fun e w r w' hx => ?_) hk
  · intro x hx
    rw [List.mem_singleton.mp hx]
    exact ⟨hid, raw, hraw, hhash⟩
  · rcases exec_rotateTx hx with ⟨⟨err, rfl⟩, rfl⟩ | hok
    · exact ⟨rfl, .inl ⟨fun x hx => hx, fun h => by cases h⟩⟩
    · obtain ⟨d, hd, hid, hnone, heq, hmem⟩ := rotateTx_ok hok
      refine ⟨by rw [heq]; rfl, .inr ⟨now, d, hd, hid, hnone, (hmem _).mpr (.inr (.inr rfl)), fun x hx => ?_, fun x hx => ?_⟩⟩
      · exact (hmem x).mpr (.inl (List.mem_singleton.mp hx))
      · exact ((hmem x).mp hx).imp List.mem_singleton.mpr (Or.imp_left And.left)

end

/-! ## The cores -/

section
variable (c : DomainAuthComponent)

def Made (i : Nat) (xs : List String) (ts : List RefreshToken) (accountID installID : String) (p : Past World)
    (r : Except GoErr (RefreshToken × String)) : Prop :=
  ∀ t raw, r = .ok (t, raw) → At c i (raw :: t.id :: xs) ts p ∧ t.tokenHash = c.authHashToken raw ∧
    t.accountID = accountID ∧ t.installID = trimSpace installID

def Refreshed (i : Nat) (x : String) (g : AuthenticationGrant) (p : Past World) : Prop :=
  ∃ old new : RefreshToken, old.tokenHash = c.authHashToken x ∧ Spends i old [new] p ∧
    new.tokenHash = c.authHashToken g.refreshToken ∧ new.accountID = old.accountID ∧ new.installID = old.installID

def Revoked (i : Nat) (x : String) (p : Past World) : Prop :=
  ∃ old : RefreshToken, old.tokenHash = c.authHashToken x ∧ Spends i old [] p

variable {c} (hinj : Function.Injective c.authHashToken) {i : Nat} {p₀ : Past World} {xs : List String}
  {ts : List RefreshToken}
include hinj

theorem sound_newToken {accountID installID : String} (hat : At c i xs ts p₀) :
    Sound c i (Made c i xs ts accountID installID) (newToken c accountID installID) p₀ := by
  unfold newToken
  split
  · intro _ _ h
    cases h
  simp only [perform, Prog.perform_bind, Prog.pure_eq]
  refine sound_newUUID hinj hat fun r p hat hr => ?_
  cases r with
  | error err =>
    intro _ _ h
    cases h
  | ok id =>
    refine sound_readRandom hinj (hr id rfl) fun r p hat hr => ?_
    cases r with
    | error err =>
      intro _ _ h
      cases h
    | ok raw =>
      refine sound_quiet hinj rfl (hr raw rfl) fun now p hat t raw' h => ?_
      cases h
      exact ⟨hat, rfl, rfl, rfl⟩

theorem sound_createToken {t : RefreshToken} {raw : String} (hat : At c i xs ts p₀) (hid : t.id ∈ xs) (hraw : raw ∈ xs)
    (hhash : t.tokenHash = c.authHashToken raw) : Sound c i (fun _ _ => True) (createToken t) p₀ := by
  unfold createToken
  simp only [perform, Prog.perform_bind]
  refine sound_quiet hinj rfl hat fun now p hat => ?_
  split
  · trivial
  · rename_i d hd
    rw [refreshTokenDocumentFromDomain_ok hd]
    exact sound_insertToken hinj hat hid hraw hhash fun _ _ _ => trivial

theorem sound_issueToken (accountID installID : String) :
    Sound c i (fun _ _ => True) (issueToken c accountID installID) p₀ := by
  refine Pool.Safe.bind ((sound_newToken hinj (at_nil p₀)).mono fun p r hmade => ?_)
  cases r with
  | error err => trivial
  | ok made =>
    obtain ⟨t, raw⟩ := made
    obtain ⟨hat, hhash, _⟩ := hmade t raw rfl
    refine Pool.Safe.bind ((sound_createToken hinj hat (by simp) (by simp) hhash).mono fun p r _ => ?_)
    cases r <;> trivial

theorem sound_hashPassword {α : Type} {post : Past World → α → Prop} {k : Except GoErr String → Prog Ans α}
    (password : String) (hk : ∀ r p, Sound c i post (k r) p) : Sound c i post (hashPassword password >>= k) p₀ := by
  unfold hashPassword
  split
  · exact hk _ _
  simp only [perform, Prog.perform_bind, Prog.call_bind]
  refine sound_quiet hinj rfl (at_nil p₀) fun r p _ => ?_
  cases r with
  | error err => exact hk _ _
  | ok hash => exact hk _ _

theorem sound_createAccountAndToken (provider : AuthProvider) (subject password installID : String) :
    Sound c i (fun _ _ => True) (createAccountAndToken c provider subject password installID) p₀ := by
  unfold createAccountAndToken
  simp only [perform, Prog.perform_bind]
  refine sound_newUUID hinj (at_nil p₀) fun r p _ _ => ?_
  cases r with
  | error err => trivial
  | ok accountID =>
    refine sound_newUUID hinj (at_nil p) fun r p _ _ => ?_
    cases r with
    | error err => trivial
    | ok identityID =>
      refine sound_hashPassword hinj password fun r p => ?_
      cases r with
      | error err => trivial
      | ok passwordHash =>
        refine sound_quiet hinj rfl (at_nil p) fun now p _ => ?_
        refine Pool.Safe.bind ((sound_newToken hinj (at_nil p)).mono fun p r hmade => ?_)
        cases r with
        | error err => trivial
        | ok made =>
          obtain ⟨t, raw⟩ := made
          obtain ⟨hat, hhash, _⟩ := hmade t raw rfl
          refine sound_createAccountTx hinj hat (by simp) (by simp) hhash fun r p _ => ?_
          cases r <;> trivial

theorem sound_guestLogin (identity : Identity) (installID : String) :
    Sound c i (fun _ _ => True) (guestLogin c identity installID) p₀ := by
  refine Pool.Safe.bind ((sound_issueToken hinj identity.accountID installID).mono fun p r _ => ?_)
  cases r <;> trivial

theorem sound_guestAuthenticateCore (request : GuestAuthenticateRequest) :
    Sound c i (fun _ _ => True) (guestAuthenticateCore c request) p₀ := by
  unfold guestAuthenticateCore
  simp only [perform, Prog.perform_bind]
  refine sound_quiet hinj rfl (at_nil p₀) fun r p _ => ?_
  cases r with
  | ok identity => exact sound_guestLogin hinj identity _
  | error err =>
    dsimp only
    split
    · trivial
    refine Pool.Safe.bind ((sound_createAccountAndToken hinj _ _ _ _).mono fun p r _ => ?_)
    cases r with
    | ok made => trivial
    | error createErr =>
      refine sound_quiet hinj rfl (at_nil p) fun r p _ => ?_
      cases r with
      | error err => trivial
      | ok identity => exact sound_guestLogin hinj identity _

theorem sound_passwordLogin (identity : Identity) (password installID : String) :
    Sound c i (fun _ _ => True) (passwordLogin c identity password installID) p₀ := by
  unfold passwordLogin
  split
  · trivial
  refine Pool.Safe.bind ((sound_issueToken hinj identity.accountID installID).mono fun p r _ => ?_)
  cases r <;> trivial

theorem sound_passwordAuthenticateCore (request : PasswordAuthenticateRequest) :
    Sound c i (fun _ _ => True) (passwordAuthenticateCore c request) p₀ := by
  unfold passwordAuthenticateCore
  dsimp only
  split
  · trivial
  simp only [perform, Prog.perform_bind, Prog.pure_eq]
  refine sound_quiet hinj rfl (at_nil p₀) fun r p _ => ?_
  cases r with
  | ok identity => exact sound_passwordLogin hinj identity _ _
  | error err =>
    dsimp only
    split
    · trivial
    refine Pool.Safe.bind ((sound_createAccountAndToken hinj _ _ _ _).mono fun p r _ => ?_)
    cases r with
    | ok made => trivial
    | error createErr =>
      refine sound_quiet hinj rfl (at_nil p) fun r p _ => ?_
      cases r with
      | error err => trivial
      | ok identity => exact sound_passwordLogin hinj identity _ _

omit hinj in
theorem installID_of_isUsable {t : RefreshToken} {now : Time} {installID : String}
    (h : ¬ (!t.isUsable now installID) = true) : t.installID = installID := by
  simp only [RefreshToken.isUsable, Bool.not_eq_true', Bool.not_eq_false, Bool.and_eq_true, beq_iff_eq] at h
  exact h.1.2

theorem sound_rotate {old t : RefreshToken} {now : Time} {raw : String} (hat : At c i xs (old :: ts) p₀)
    (hid : t.id ∈ xs) (hraw : raw ∈ xs) (hhash : t.tokenHash = c.authHashToken raw) :
    Sound c i (fun p r => r = .ok () → Spends i old [t] p) (rotate old.id now t) p₀ := by
  unfold rotate
  split
  · intro h
    cases h
  simp only [perform, Prog.perform_bind, Prog.pure_eq]
  refine sound_quiet hinj rfl hat fun today p hat => ?_
  split
  · intro h
    cases h
  · rename_i d hd
    rw [refreshTokenDocumentFromDomain_ok hd]
    exact sound_rotateTx hinj hat hid hraw hhash fun r p h => h

theorem sound_refreshAuthenticateCore (request : RefreshAuthenticateRequest) :
    Sound c i (fun p r => ∀ res, r = .ok res →
      ∃ g, res.message.grant? = some g ∧ Refreshed c i request.refreshToken g p) (refreshAuthenticateCore c request) p₀ := by
  unfold refreshAuthenticateCore
  simp only [perform, Prog.perform_bind]
  refine sound_quiet hinj rfl (at_nil p₀) fun now p hat => ?_
  refine sound_findValid hinj hat fun r p _ hr => ?_
  cases r with
  | error err =>
    intro _ h
    cases h
  | ok old =>
    obtain ⟨hat, hhash⟩ := hr old rfl
    dsimp only
    split
    · intro _ h
      cases h
    rename_i husable
    refine Pool.Safe.bind ((sound_newToken hinj hat).mono fun p r hmade => ?_)
    cases r with
    | error err =>
      intro _ h
      cases h
    | ok made =>
      obtain ⟨t, raw⟩ := made
      obtain ⟨hat, hthash, haccount, hinstall⟩ := hmade t raw rfl
      refine Pool.Safe.bind ((sound_rotate hinj hat (by simp) (by simp) hthash).mono fun p r hspend => ?_)
      cases r with
      | error err =>
        intro _ h
        cases h
      | ok u =>
        intro res h
        cases h
        exact ⟨_, rfl, old, t, hhash, hspend rfl, hthash, haccount, hinstall.trans (installID_of_isUsable husable).symm⟩

theorem sound_revokeRefreshTokenCore (request : RevokeRefreshTokenRequest) :
    Sound c i (fun p r => ∀ res, r = .ok res → Revoked c i request.refreshToken p) (revokeRefreshTokenCore c request)
      p₀ := by
  unfold revokeRefreshTokenCore
  simp only [perform, Prog.perform_bind]
  refine sound_quiet hinj rfl (at_nil p₀) fun now p hat => ?_
  refine sound_findValid hinj hat fun r p _ hr => ?_
  cases r with
  | error err =>
    intro _ h
    cases h
  | ok old =>
    obtain ⟨hat, hhash⟩ := hr old rfl
    dsimp only
    split
    · intro _ h
      cases h
    refine sound_quiet hinj rfl hat fun now p hat => ?_
    refine sound_revoke hinj hat fun r p hspend => ?_
    cases r with
    | error err =>
      intro _ h
      cases h
    | ok u =>
      cases u
      exact fun _ _ => ⟨old, hhash, hspend rfl⟩

end

/-! ## The handlers -/

section
variable (c : DomainAuthComponent)

def Answered (i : Nat) (p : Past World) (res : MessageResult) : Request → Prop
  | .refresh r => ∃ g, res.message.grant? = some g ∧ Refreshed c i r.refreshToken g p
  | .clientRefresh r => ∃ g, res.message.grant? = some g ∧ Refreshed c i r.refreshToken g p
  | .revoke r => Revoked c i r.refreshToken p
  | .guest _ | .password _ | .clientLogin _ => True

variable {c} (hinj : Function.Injective c.authHashToken) {i : Nat} {p₀ : Past World}
include hinj

theorem sound_core (request : Request) :
    Sound c i (fun p r => ∀ res, r = .ok res → Answered c i p res request) (request.core c) p₀ := by
  cases request with
  | guest r => exact (sound_guestAuthenticateCore hinj r).mono fun _ _ _ _ _ => trivial
  | password r => exact (sound_passwordAuthenticateCore hinj r).mono fun _ _ _ _ _ => trivial
  | refresh r => exact sound_refreshAuthenticateCore hinj r
  | revoke r => exact sound_revokeRefreshTokenCore hinj r
  | clientLogin r =>
    simp only [Request.core, clientLoginAuthenticateCore]
    split
    · refine Pool.Safe.bind ((sound_guestAuthenticateCore hinj _).mono fun p r _ => ?_)
      cases r <;> exact fun _ _ => trivial
    · refine Pool.Safe.bind ((sound_passwordAuthenticateCore hinj _).mono fun p r _ => ?_)
      cases r <;> exact fun _ _ => trivial
    · exact fun _ _ => trivial
  | clientRefresh r =>
    refine Pool.Safe.bind ((sound_refreshAuthenticateCore hinj _).mono fun p r h => ?_)
    cases r with
    | error err =>
      intro _ h
      cases h
    | ok result =>
      intro res heq
      cases heq
      exact h result rfl

end

end Token

/-! ## Runs without idempotency keys -/

def Request.refreshes : Request → Option String
  | .refresh r => some r.refreshToken
  | .clientRefresh r => some r.refreshToken
  | _ => none

def Request.consumes : Request → Option String
  | .revoke r => some r.refreshToken
  | r => r.refreshes

def Refreshes (calls : List Call) (s : State) (x y : String) : Prop :=
  ∃ i request res g, Succeeded calls s i request res ∧ request.refreshes = some x ∧ res.message.grant? = some g ∧
    g.refreshToken = y

def Stored (c : DomainAuthComponent) (s : State) (sched : List (Nat × Env)) (x : String) (t : RefreshToken) : Prop :=
  ∃ u ∈ Pool.visited (exec c) s sched, t ∈ u.tokens ∧ t.tokenHash = c.authHashToken x

namespace Token

attribute [local irreducible] trimSpace

variable {c : DomainAuthComponent}

theorem sound_handler (hinj : Function.Injective c.authHashToken) (call : Call) (hcall : call.Keyless) (i : Nat)
    (p₀ : Past World) :
    Sound c i (fun p r => ∀ request res, call.request = some request → r = some (.ok res) → Answered c i p res request)
      (call.handler c) p₀ := by
  refine (safe_handler (Q := fun request p r => ∀ res, r = .ok res → Answered c i p res request)
    (fun site request hreq => ?_) ?_ (fun id => ?_) fun key => ?_).mono fun p r h request res hreq hr =>
      h request res hreq hr res rfl
  · rw [withIdempotency, if_pos (hcall.of_request hreq)]
    exact sound_core hinj request
  · simp only [Call.handler, perform, Prog.perform_bind]
    exact sound_quiet hinj rfl (at_nil p₀) fun _ p _ => sound_quiet hinj rfl (at_nil p) fun _ p _ => trivial
  · simp only [Call.handler, perform, Prog.perform_bind]
    exact sound_expireToken hinj (at_nil p₀) fun _ p _ => trivial
  · simp only [Call.handler, perform, Prog.perform_bind]
    exact sound_quiet hinj rfl (at_nil p₀) fun _ p _ => trivial

theorem inv_init (clock : Time) : Inv c (World.init clock, []) := by
  have hnone : ∀ u, Visited (World.init clock, []) u → ∀ t, t ∉ u.tokens := by
    intro u hu t ht
    rcases hu with rfl | ⟨m, hm, _⟩
    · exact Coll.not_mem_empty t ht
    · cases hm
  exact ⟨fun _ _ _ h => (by cases h), fun u hu t ht => absurd ht (hnone u hu t),
    fun u _ hu _ t ht => absurd ht (hnone u hu t), fun _ hm => (nomatch hm), List.Pairwise.nil⟩

variable {p : Past World}

theorem Spends.mono {i : Nat} {old : RefreshToken} {new : List RefreshToken} {p' : Past World}
    (h : Spends i old new p) (hsteps : ∀ m ∈ p.2, m ∈ p'.2) : Spends i old new p' := by
  obtain ⟨m, hm, h⟩ := h
  exact ⟨m, hsteps m hm, h⟩

theorem Answered.mono {i : Nat} {p' : Past World} {res : MessageResult} {request : Request}
    (h : Answered c i p res request) (hsteps : ∀ m ∈ p.2, m ∈ p'.2) : Answered c i p' res request := by
  have hrefreshed : ∀ x g, Refreshed c i x g p → Refreshed c i x g p' := by
    rintro x g ⟨old, new, hold, hspend, h⟩
    exact ⟨old, new, hold, hspend.mono hsteps, h⟩
  cases request with
  | refresh r | clientRefresh r =>
    obtain ⟨g, hg, h⟩ := h
    exact ⟨g, hg, hrefreshed _ g h⟩
  | revoke r =>
    obtain ⟨old, hold, h⟩ := h
    exact ⟨old, hold, h.mono hsteps⟩
  | guest r | password r | clientLogin r => trivial

theorem exists_past (hinj : Function.Injective c.authHashToken) {calls : List Call} (hcalls : ∀ call ∈ calls, call.Keyless)
    (clock : Time) (sched : List (Nat × Env)) :
    ∃ p : Past World, Inv c p ∧ p.1 = (Pool.run (exec c) (State.init c (.init clock) calls) sched).world ∧
      (∀ u, Visited p u ↔ u ∈ Pool.visited (exec c) (State.init c (.init clock) calls) sched) ∧
      ∀ i request res, Succeeded calls (Pool.run (exec c) (State.init c (.init clock) calls) sched) i request res →
        Answered c i p res request := by
  let post : Nat → Past World → Reply → Prop := fun i p r => ∀ call request res, calls[i]? = some call →
    call.request = some request → r = some (.ok res) → Answered c i p res request
  have hsound : ∀ i prog, (calls.map (Call.handler c))[i]? = some prog →
      Sound c i (post i) prog (World.init clock, []) := by
    refine Pool.forall_map fun i call hcall => ?_
    refine (sound_handler hinj call (hcalls call (List.mem_of_getElem? hcall)) i _).mono fun p r h call' request res hi => ?_
    obtain rfl : call = call' := Option.some.inj (hcall.symm.trans hi)
    exact h request res
  obtain ⟨p, hi, hworld, hvisited, -, hpost⟩ := Pool.safe_past (fun _ => Rely.refl) (fun _ _ _ _ => Rely.trans)
    (inv_init clock) hsound (Pool.along_any _ sched)
  refine ⟨p, hi, hworld, hvisited, ?_⟩
  rintro i request res ⟨⟨site, payload, hcall, hreq⟩, hans⟩
  obtain ⟨q, hq, hrely⟩ := hpost i _ hans
  exact (hq _ request res hcall hreq rfl).mono hrely.steps

theorem Answered.spends {i : Nat} {res : MessageResult} {request : Request} {x : String}
    (h : Answered c i p res request) (hx : request.consumes = some x) :
    ∃ old : RefreshToken, old.tokenHash = c.authHashToken x ∧ ∃ new, Spends i old new p := by
  cases request with
  | refresh r | clientRefresh r =>
    cases hx
    obtain ⟨_, _, old, new, hold, hspend, _⟩ := h
    exact ⟨old, hold, [new], hspend⟩
  | revoke r =>
    cases hx
    obtain ⟨old, hold, hspend⟩ := h
    exact ⟨old, hold, [], hspend⟩
  | guest r | password r | clientLogin r => cases hx

theorem Answered.refreshed {i : Nat} {res : MessageResult} {request : Request} {x : String} {g : AuthenticationGrant}
    (h : Answered c i p res request) (hx : request.refreshes = some x) (hg : res.message.grant? = some g) :
    Refreshed c i x g p := by
  cases request with
  | refresh r | clientRefresh r =>
    cases hx
    obtain ⟨g', hg', h⟩ := h
    rw [hg] at hg'
    cases hg'
    exact h
  | guest r | password r | clientLogin r | revoke r => cases hx

theorem Inv.step_eq (hi : Inv c p) {m n : Step World} (hm : m ∈ p.2) (hn : n ∈ p.2) {id : String}
    (hcm : Consumes id m) (hcn : Consumes id n) : m = n := by
  by_contra hne
  have hsymm : Std.Symm fun m n : Step World => ∀ id, ¬ (Consumes id m ∧ Consumes id n) :=
    ⟨fun a b h id hab => h id hab.symm⟩
  exact hi.once.forall hm hn hne id ⟨hcm, hcn⟩

end Token

open Token in
/-- However guest, password, refresh and revoke requests without a key
interleave: at most one request consumes a token; once it has, the token is not
valid any more; and a chain of refreshes stays with one account and one
installation. -/
theorem refresh_token_used_once (c : DomainAuthComponent) (hinj : Function.Injective c.authHashToken) (calls : List Call)
    (hcalls : ∀ call ∈ calls, call.Keyless) (clock : Time) (sched : List (Nat × Env)) :
    let s₀ := State.init c (.init clock) calls
    let s := Pool.run (exec c) s₀ sched
    (∀ i j request request' res res' x, Succeeded calls s i request res → Succeeded calls s j request' res' →
      request.consumes = some x → request'.consumes = some x → i = j) ∧
    (∀ i request res x, Succeeded calls s i request res → request.consumes = some x →
      ∀ now, s.world.findValid (c.authHashToken x) now = .error errInvalidToken) ∧
    ∀ x y, Relation.ReflTransGen (Refreshes calls s) x y → ∀ t, Stored c s₀ sched x t →
      (∃ t', Stored c s₀ sched y t') ∧
        ∀ t', Stored c s₀ sched y t' → t'.accountID = t.accountID ∧ t'.installID = t.installID := by
  intro s₀ s
  obtain ⟨p, hi, hworld, hvisited, hsucc⟩ := exists_past hinj hcalls clock sched
  refine ⟨?_, ?_, ?_⟩
  · intro i j request request' res res' x h h' hx hx'
    obtain ⟨old, hold, _, m, hm, rfl, ⟨t, ht, htold⟩, hc, _⟩ := (hsucc i request res h).spends hx
    obtain ⟨old', hold', _, n, hn, rfl, ⟨t', ht', htold'⟩, hc', _⟩ := (hsucc j request' res' h').spends hx'
    -- both read the token `x`, and a token has one id
    have hsame : t.issued = t'.issued :=
      hi.same _ _ (.inr ⟨m, hm, .inl rfl⟩) (.inr ⟨n, hn, .inl rfl⟩) t ht t' ht'
        (.inr (by rw [issued_tokenHash htold, issued_tokenHash htold', hold, hold']))
    have hid : old'.id = old.id := by rw [← issued_id htold, ← issued_id htold', issued_id hsame]
    rw [hi.step_eq hm hn hc (hid ▸ hc')]
  · intro i request res x h hx now
    obtain ⟨old, hold, _, m, hm, _, ⟨t, ht, htold⟩, hc, _⟩ := (hsucc i request res h).spends hx
    cases hfind : s.world.findValid (c.authHashToken x) now with
    | error err => rw [findValid_error hfind]
    | ok d =>
      obtain ⟨hmem, hhash, hnone, _⟩ := findValid_ok hfind
      have hd : d ∈ p.1.tokens := hworld ▸ hmem
      have hsame : d.issued = t.issued :=
        hi.same _ _ (.inl rfl) (.inr ⟨m, hm, .inl rfl⟩) d hd t ht
          (.inr (by rw [issued_tokenHash htold, hhash, hold]))
      exact absurd hnone (hi.gone m hm old.id hc d hd ((issued_id hsame).trans (issued_id htold)))
  · have hsame : ∀ x t t', Stored c s₀ sched x t → Stored c s₀ sched x t' → t.issued = t'.issued := by
      rintro x t t' ⟨u, hu, ht, hhash⟩ ⟨u', hu', ht', hhash'⟩
      exact hi.same u u' ((hvisited u).mpr hu) ((hvisited u').mpr hu') t ht t' ht' (.inr (hhash.trans hhash'.symm))
    intro x y hchain t hstored
    induction hchain with
    | refl =>
      refine ⟨⟨t, hstored⟩, fun t' h' => ?_⟩
      have hissued := hsame x t' t h' hstored
      exact ⟨issued_accountID hissued, issued_installID hissued⟩
    | tail _ hlast ih =>
      rename_i b y _
      obtain ⟨i, request, res, g, hres, hx, hg, rfl⟩ := hlast
      obtain ⟨old, new, hold, ⟨m, hm, _, ⟨t₀, ht₀, hissued⟩, _, hnew⟩, hhash, haccount, hinstall⟩ :=
        (hsucc i request res hres).refreshed hx hg
      have hfrom : Stored c s₀ sched b t₀ :=
        ⟨m.old, (hvisited _).mp (.inr ⟨m, hm, .inl rfl⟩), ht₀, (issued_tokenHash hissued).trans hold⟩
      have hto : Stored c s₀ sched g.refreshToken new :=
        ⟨m.new, (hvisited _).mp (.inr ⟨m, hm, .inr rfl⟩), hnew new (List.mem_cons_self ..), hhash⟩
      refine ⟨⟨new, hto⟩, fun t' h' => ?_⟩
      have hlast := hsame _ t' new h' hto
      obtain ⟨haccount₀, hinstall₀⟩ := ih.2 t₀ hfrom
      constructor
      · rw [issued_accountID hlast, haccount, ← issued_accountID hissued, haccount₀]
      · rw [issued_installID hlast, hinstall, ← issued_installID hissued, hinstall₀]

def racingRefreshes : List Call :=
  [.serve {} (.guestAuthenticate (some { installID := "phone" })),
    .serve {} (.refreshAuthenticate (some { refreshToken := "raw", installID := "phone" })),
    .serve {} (.refreshAuthenticate (some { refreshToken := "raw", installID := " phone" }))]

def bothFindIt : List (Nat × Env) :=
  drawing [(0, ""), (0, "account"), (0, "identity"), (0, ""), (0, "token"), (0, "raw"), (0, ""), (0, ""), (1, ""), (1, ""),
    (2, ""), (2, ""), (1, "token1"), (1, "raw1"), (2, "token2"), (2, "raw2"), (1, ""), (1, ""), (2, ""), (2, ""), (2, ""),
    (1, "")]

theorem refresh_token_used_once_in_race :
    (Pool.run (exec plainComponent) (State.init plainComponent (.init 5) racingRefreshes) bothFindIt).answer 1 =
        some (some (.error (.wrap "rotate refresh token" errInvalidToken))) ∧
      ∀ now, (Pool.run (exec plainComponent) (State.init plainComponent (.init 5) racingRefreshes)
        bothFindIt).world.findValid "raw" now = .error errInvalidToken := by
  refine ⟨by decide, ?_⟩
  have hcalls : ∀ call ∈ racingRefreshes, call.Keyless := by
    intro call hcall
    simp only [racingRefreshes, List.mem_cons, List.not_mem_nil, or_false] at hcall
    rcases hcall with rfl | rfl | rfl <;> rintro request ⟨⟩ <;> decide
  have h := refresh_token_used_once plainComponent Function.injective_id racingRefreshes hcalls 5 bothFindIt
  exact h.2.1 2 _ ⟨refreshAuthenticateResponse, .refresh ⟨"account", "raw2", 1⟩⟩ "raw" ⟨⟨_, _, rfl, rfl⟩, by decide⟩ rfl

end GameServer.UserCenter
