import GameServer.Streaming
import Mathlib.Data.List.Perm.Subperm

/-!
# Requests and their responses

The envelope a `Request` returns answers the request it has sent itself: each
call draws its own id, the table of pending requests leads from an id to the
channel of the call that drew it, and the router answers a request under the id
it came with. Nothing is assumed of the stream, which may lose, repeat, delay
and reorder what it carries, and, but for the last result, make it up.
-/

namespace GameServer.Streaming

def Call.isRequest : Call → Bool
  | .request _ => true
  | _ => false

def requestEnvelope (envelope : InternalEnvelope) (id : UInt64) : InternalEnvelope :=
  { envelope with requestID := id, kind := .request }

def replyTo (peer : Peer) (q : InternalEnvelope) : Outcome → Option InternalEnvelope
  | .error err => some (errorEnvelope q.requestID 3 err.text)
  | .ok (some ⟨messageID, some (.ok payload)⟩) => some (responseEnvelope peer q messageID payload)
  | .ok _ => none

/-- `v` is what the stream of `server` was given for the request `q`: the result
of the handler that is registered for it, or that there is none. -/
def Routed (c : Config) (w : World) (server : Nat) (q v : InternalEnvelope) : Prop :=
  match c.handlers.lookup (q.targetService, q.messageID) with
  | none => v = errorEnvelope q.requestID 2 "target service or message handler is unavailable"
  | some handler => ∃ peer outcome, peer.connection = server ∧ ⟨handler, peer, q, outcome⟩ ∈ w.handled ∧
      replyTo peer q outcome = some v

/-- The client is at the other end of the stream of `server`: what that handler
receives was sent by the client, and the responses and errors the client
receives were sent by that handler. -/
def Linked (server : Nat) (i : Nat) (e : Env) (w : World) : Cmd → Prop
  | .clientRecv => ∀ v, e.received = .ok v → v.kind = .response ∨ v.kind = .error → (server, v) ∈ w.replied
  | .streamRecv => i = server → ∀ q, e.received = .ok q → ∃ j, (j, q) ∈ w.sent
  | _ => True

instance (server i : Nat) (e : Env) (w : World) : ∀ cmd, Decidable (Linked server i e w cmd)
  | .clientRecv =>
    match h : e.received with
    | .ok v => decidable_of_iff (v.kind = .response ∨ v.kind = .error → (server, v) ∈ w.replied) (by simp [Linked, h])
    | .error _ => .isTrue (by simp [Linked, h])
  | .streamRecv =>
    match h : e.received with
    | .ok q => decidable_of_iff (i = server → ∃ x ∈ w.sent, x.2 = q) (by simp [Linked, h])
    | .error _ => .isTrue (by simp [Linked, h])
  | .newConnection | .addPeer _ | .removePeer _ | .peer _ | .closeConnection _ | .connectionDone _ | .streamSend _ _
  | .handleMessage _ _ _ | .nextID | .makeResponse | .addRequest _ _ | .removeRequest _ | .request _ | .putResponse _ _
  | .await _ | .clientDone | .closeClient | .clientSend _ | .handleEvent _ => .isTrue trivial

namespace Correlation

section
variable (c : Config) (calls : List Call) (server : Option Nat)

def Proper (w : World) (i : Nat) (q : InternalEnvelope) : Prop :=
  q.kind = .hello ∨ q.kind = .event ∨
    ∃ envelope, calls[i]? = some (.request envelope) ∧ q = requestEnvelope envelope q.requestID ∧
      (i, q.requestID) ∈ w.issued

structure Inv (w : World) : Prop where
  count : w.issued.length = w.nextID.toNat
  ids : (w.issued.map Prod.snd).Nodup
  le : ∀ x ∈ w.issued, x.2.toNat ≤ w.nextID.toNat
  nodup : (w.issued.map Prod.fst).Nodup
  callers : ∀ x ∈ w.issued, ∃ envelope, calls[x.1]? = some (.request envelope)
  requests : ∀ id response, w.requests.lookup id = some response → (response, id) ∈ w.issued
  responses : ∀ response v, w.responses response = some v →
    (response, v.requestID) ∈ w.issued ∧ ∀ s ∈ server, (s, v) ∈ w.replied
  sent : ∀ x ∈ w.sent, Proper calls w x.1 x.2
  replied : ∀ s ∈ server, ∀ v, (s, v) ∈ w.replied →
    ∃ i q, (i, q) ∈ w.sent ∧ q.kind = .request ∧ Routed c w s q v

structure Rely (j : Nat) (w w' : World) : Prop where
  issued : w.issued ⊆ w'.issued
  sent : w.sent ⊆ w'.sent
  replied : w.replied ⊆ w'.replied
  handled : w.handled ⊆ w'.handled
  own : ∀ id, (j, id) ∈ w'.issued → (j, id) ∈ w.issued

def G (i : Nat) (e : Env) (w : World) (cmd : Cmd) : Prop := ∀ s ∈ server, Linked s i e w cmd

abbrev Sound {α : Type} (i : Nat) (post : World → α → Prop) (p : Prog Ans α) (w : World) : Prop :=
  Pool.Safe exec (G server) (Inv c calls server) Rely i post p w

abbrev Does (i : Nat) (cmd : Cmd) (pre : World → Prop) (gives : Ans cmd → World → Prop) : Prop :=
  Pool.Does exec (G server) (Inv c calls server) Rely i cmd pre gives

end

theorem Rely.refl (j : Nat) (w : World) : Rely j w w :=
  ⟨fun _ h => h, fun _ h => h, fun _ h => h, fun _ h => h, fun _ h => h⟩

theorem Rely.trans (j : Nat) (a b d : World) (h : Rely j a b) (h' : Rely j b d) : Rely j a d :=
  ⟨fun _ x => h'.issued (h.issued x), fun _ x => h'.sent (h.sent x), fun _ x => h'.replied (h.replied x),
    fun _ x => h'.handled (h.handled x), fun id x => h.own id (h'.own id x)⟩

variable {c : Config} {calls : List Call} {server : Option Nat} {i : Nat} {w w' : World}

variable {q v envelope : InternalEnvelope} {pre : World → Prop}

theorem Proper.mono (h : Proper calls w i q) (hissued : w.issued ⊆ w'.issued) :
    Proper calls w' i q := by
  rcases h with h | h | ⟨envelope, hcall, hq, hid⟩
  · exact .inl h
  · exact .inr (.inl h)
  · exact .inr (.inr ⟨envelope, hcall, hq, hissued hid⟩)

theorem Routed.mono {s : Nat} (h : Routed c w s q v) (hhandled : w.handled ⊆ w'.handled) :
    Routed c w' s q v := by
  unfold Routed at h ⊢
  split
  · simpa [*] using h
  · rename_i handler heq
    simp only [heq] at h
    obtain ⟨peer, outcome, hpeer, hmem, hreply⟩ := h
    exact ⟨peer, outcome, hpeer, hhandled hmem, hreply⟩

theorem replyTo_requestID {peer : Peer} {outcome : Outcome} (h : replyTo peer q outcome = some v) :
    v.requestID = q.requestID := by
  unfold replyTo at h
  split at h <;> cases h <;> rfl

theorem Routed.requestID {s : Nat} (h : Routed c w s q v) : v.requestID = q.requestID := by
  unfold Routed at h
  split at h
  · rw [h]
    rfl
  · obtain ⟨peer, outcome, -, -, hreply⟩ := h
    exact replyTo_requestID hreply

/-! ## Ids -/

theorem Inv.id_eq (h : Inv c calls server w) {a b : UInt64} (ha : (i, a) ∈ w.issued) (hb : (i, b) ∈ w.issued) :
    a = b :=
  congrArg Prod.snd (List.inj_on_of_nodup_map h.nodup ha hb rfl)

theorem Inv.caller_eq (h : Inv c calls server w) {j : Nat} {id : UInt64} (hi : (i, id) ∈ w.issued)
    (hj : (j, id) ∈ w.issued) : i = j :=
  congrArg Prod.fst (List.inj_on_of_nodup_map h.ids hi hj rfl)

theorem length_le_countP {p : Call → Bool} {l : List Nat} (hl : l.Nodup) (hp : ∀ i ∈ l, ∃ x, calls[i]? = some x ∧ p x) :
    l.length ≤ calls.countP p := by
  have hsub : l ⊆ (calls.zipIdx.filter fun x => p x.1).map Prod.snd := by
    intro i hi
    obtain ⟨x, hx, hpx⟩ := hp i hi
    exact List.mem_map.mpr ⟨(x, i), List.mem_filter.mpr ⟨List.mem_zipIdx_iff_getElem?.mpr hx, hpx⟩, rfl⟩
  have hcount : calls.countP p = (calls.zipIdx.filter fun x => p x.1).length := by
    rw [← List.countP_eq_length_filter]
    conv_lhs => rw [← List.zipIdx_map_fst 0 calls, List.countP_map]
    rfl
  rw [hcount, ← List.length_map (f := Prod.snd)]
  exact (List.subperm_of_subset hl hsub).length_le

theorem Inv.push (h : Inv c calls server w) (hfew : calls.countP Call.isRequest < 2 ^ 64)
    (hcall : calls[i]? = some (.request envelope)) (hnew : ∀ id, (i, id) ∉ w.issued) :
    Inv c calls server { w with nextID := w.nextID + 1, issued := (i, w.nextID + 1) :: w.issued } := by
  have hfresh : i ∉ w.issued.map Prod.fst := by
    intro hmem
    obtain ⟨x, hx, rfl⟩ := List.mem_map.mp hmem
    exact hnew x.2 hx
  have hnodup : (i :: w.issued.map Prod.fst).Nodup := List.nodup_cons.mpr ⟨hfresh, h.nodup⟩
  -- There are fewer requests than ids.
  have hlt : w.nextID.toNat + 1 < 2 ^ 64 := by
    have hrequests : ∀ j ∈ i :: w.issued.map Prod.fst, ∃ x, calls[j]? = some x ∧ x.isRequest := by
      refine List.forall_mem_cons.mpr ⟨⟨_, hcall, rfl⟩, fun j hj => ?_⟩
      obtain ⟨x, hx, rfl⟩ := List.mem_map.mp hj
      obtain ⟨envelope, hx⟩ := h.callers x hx
      exact ⟨_, hx, rfl⟩
    have hle := length_le_countP hnodup hrequests
    rw [List.length_cons, List.length_map, h.count] at hle
    omega
  have hnext : (w.nextID + 1).toNat = w.nextID.toNat + 1 := by
    rw [UInt64.toNat_add]
    exact Nat.mod_eq_of_lt hlt
  have hgrow : w.issued ⊆ (i, w.nextID + 1) :: w.issued := List.subset_cons_self ..
  constructor
  · simp [h.count, hnext]
  · refine List.nodup_cons.mpr ⟨fun hmem => ?_, h.ids⟩
    obtain ⟨x, hx, heq⟩ := List.mem_map.mp hmem
    have hle := h.le x hx
    rw [heq, hnext] at hle
    omega
  · refine List.forall_mem_cons.mpr ⟨Nat.le_refl _, fun x hx => ?_⟩
    show x.2.toNat ≤ (w.nextID + 1).toNat
    have hle := h.le x hx
    omega
  · exact hnodup
  · exact List.forall_mem_cons.mpr ⟨⟨_, hcall⟩, h.callers⟩
  · exact fun id response hr => hgrow (h.requests id response hr)
  · exact fun response v hr => ⟨hgrow (h.responses response v hr).1, (h.responses response v hr).2⟩
  · exact fun x hx => (h.sent x hx).mono hgrow
  · exact h.replied

/-! ## Commands -/

def Quiet : Cmd → Prop
  | .streamRecv | .newConnection | .addPeer _ | .removePeer _ | .peer _ | .closeConnection _ | .connectionDone _
  | .request _ | .clientDone | .closeClient | .clientRecv | .handleEvent _ => True
  | _ => False

section
variable {cmd : Cmd} {pre : World → Prop}

theorem quiet_exec {e : Env} {r : Ans cmd} (hc : Quiet cmd) (hx : exec i e w cmd = some (r, w')) :
    ∃ peers closed opened done, w' = { w with peers, closed, opened, done } := by
  cases cmd with
  | streamSend | handleMessage | nextID | makeResponse | addRequest | removeRequest | putResponse | await | clientSend =>
    exact hc.elim
  | _ =>
    cases hx
    exact ⟨_, _, _, _, rfl⟩

theorem does_quiet {gives : Ans cmd → World → Prop} (hc : Quiet cmd)
    (hgives : ∀ e w r w', Inv c calls server w → G server i e w cmd → exec i e w cmd = some (r, w') → gives r w') :
    Does c calls server i cmd pre gives := by
  intro e w r w' h _ hg hx
  have hr := hgives e w r w' h hg hx
  obtain ⟨peers, closed, opened, done, rfl⟩ := quiet_exec hc hx
  exact ⟨⟨h.count, h.ids, h.le, h.nodup, h.callers, h.requests, h.responses, h.sent, h.replied⟩,
    fun j => ⟨fun _ h => h, fun _ h => h, fun _ h => h, fun _ h => h, fun _ h => h⟩, hr⟩

theorem does_clientRecv : Does c calls server i .clientRecv pre fun r w =>
    ∀ v, r = .ok v → v.kind = .response ∨ v.kind = .error → ∀ s ∈ server, (s, v) ∈ w.replied := by
  refine does_quiet trivial fun e w r w' _ hg hx v hv hkind s hs => ?_
  cases hx
  exact hg s hs v hv hkind

theorem does_request {id : UInt64} : Does c calls server i (.request id) pre fun r w =>
    ∀ response, r = some response → (response, id) ∈ w.issued := by
  refine does_quiet trivial fun e w r w' h _ hx response hr => ?_
  cases hx
  exact h.requests id response hr

theorem does_newConnection : Does c calls server i .newConnection pre fun r _ => r = i := by
  refine does_quiet trivial fun e w r w' _ _ hx => ?_
  cases hx
  rfl

end

theorem does_streamSend : Does c calls server i (.streamSend i v)
    (fun w => ∀ s ∈ server, i = s → ∃ j q, (j, q) ∈ w.sent ∧ q.kind = .request ∧ Routed c w s q v) fun _ _ => True := by
  intro e w r w' h hv _ hx
  simp only [exec] at hx
  split at hx
  · cases hx
    exact ⟨h, fun j => .refl j w, trivial⟩
  · cases hx
    have hgrow : w.replied ⊆ (i, v) :: w.replied := List.subset_cons_self ..
    refine ⟨⟨h.count, h.ids, h.le, h.nodup, h.callers, h.requests, ?_, h.sent, ?_⟩,
      fun j => ⟨fun _ h => h, fun _ h => h, hgrow, fun _ h => h, fun _ h => h⟩, trivial⟩
    · exact fun response u hu => ⟨(h.responses response u hu).1, fun s hs => hgrow ((h.responses response u hu).2 s hs)⟩
    · intro s hs u hu
      rcases List.mem_cons.mp hu with heq | hu
      · cases heq
        exact hv i hs rfl
      · exact h.replied s hs u hu

theorem does_handleMessage {handler : Nat} {peer : Peer} :
    Does c calls server i (.handleMessage handler peer q) pre fun r w => ⟨handler, peer, q, r⟩ ∈ w.handled := by
  intro e w r w' h _ _ hx
  cases hx
  have hgrow : w.handled ⊆ ⟨handler, peer, q, e.outcome⟩ :: w.handled := List.subset_cons_self ..
  refine ⟨⟨h.count, h.ids, h.le, h.nodup, h.callers, h.requests, h.responses, h.sent, fun s hs v hv => ?_⟩,
    fun j => ⟨fun _ h => h, fun _ h => h, fun _ h => h, hgrow, fun _ h => h⟩, List.mem_cons_self ..⟩
  obtain ⟨j, q', hq, hkind, hrouted⟩ := h.replied s hs v hv
  exact ⟨j, q', hq, hkind, Routed.mono hrouted hgrow⟩

theorem does_makeResponse : Does c calls server i .makeResponse pre fun r _ => r = i := by
  intro e w r w' h _ _ hx
  cases hx
  refine ⟨⟨h.count, h.ids, h.le, h.nodup, h.callers, h.requests, fun response v hv => ?_, h.sent, h.replied⟩,
    fun j => ⟨fun _ h => h, fun _ h => h, fun _ h => h, fun _ h => h, fun _ h => h⟩, rfl⟩
  by_cases hne : response = i
  · simp [hne] at hv
  · exact h.responses response v (by simpa [Function.update_of_ne hne] using hv)

theorem does_addRequest {id : UInt64} : Does c calls server i (.addRequest id i) (fun w => (i, id) ∈ w.issued)
    fun _ _ => True := by
  intro e w r w' h hid _ hx
  cases hx
  refine ⟨⟨h.count, h.ids, h.le, h.nodup, h.callers, fun id' response hr => ?_, h.responses, h.sent, h.replied⟩,
    fun j => ⟨fun _ h => h, fun _ h => h, fun _ h => h, fun _ h => h, fun _ h => h⟩, trivial⟩
  by_cases hne : id' = id
  · subst hne
    rw [AList.lookup_insert, Option.some.injEq] at hr
    exact hr ▸ hid
  · rw [AList.lookup_insert_ne hne] at hr
    exact h.requests id' response hr

theorem does_removeRequest {id : UInt64} : Does c calls server i (.removeRequest id) pre
    fun _ _ => True := by
  intro e w r w' h _ _ hx
  cases hx
  refine ⟨⟨h.count, h.ids, h.le, h.nodup, h.callers, fun id' response hr => ?_, h.responses, h.sent, h.replied⟩,
    fun j => ⟨fun _ h => h, fun _ h => h, fun _ h => h, fun _ h => h, fun _ h => h⟩, trivial⟩
  by_cases hne : id' = id
  · subst hne
    rw [AList.lookup_erase] at hr
    cases hr
  · rw [AList.lookup_erase_ne hne] at hr
    exact h.requests id' response hr

theorem does_putResponse {response : Nat} : Does c calls server i (.putResponse response v)
    (fun w => (response, v.requestID) ∈ w.issued ∧ ∀ s ∈ server, (s, v) ∈ w.replied) fun _ _ => True := by
  intro e w r w' h hv _ hx
  simp only [exec] at hx
  split at hx
  · cases hx
  · cases hx
    refine ⟨⟨h.count, h.ids, h.le, h.nodup, h.callers, h.requests, fun response' u hu => ?_, h.sent, h.replied⟩,
      fun j => ⟨fun _ h => h, fun _ h => h, fun _ h => h, fun _ h => h, fun _ h => h⟩, trivial⟩
    by_cases hne : response' = response
    · subst hne
      obtain rfl : v = u := by simpa using hu
      exact hv
    · exact h.responses response' u (by simpa [Function.update_of_ne hne] using hu)

theorem does_await {response : Nat} : Does c calls server i (.await response) pre fun r w =>
    ∀ v, r = .ok v → (∀ id, (response, id) ∈ w.issued → v.requestID = id) ∧ ∀ s ∈ server, (s, v) ∈ w.replied := by
  intro e w r w' h _ _ hx
  simp only [exec, World.await] at hx
  split at hx
  · split at hx
    · rename_i envelope henvelope
      cases hx
      have htaken : ∀ response' v, Function.update w.responses response none response' = some v →
          w.responses response' = some v := by
        intro response' v hv
        by_cases hne : response' = response
        · simp [hne] at hv
        · simpa [Function.update_of_ne hne] using hv
      refine ⟨⟨h.count, h.ids, h.le, h.nodup, h.callers, h.requests, ?_, h.sent, h.replied⟩,
        fun j => ⟨fun _ h => h, fun _ h => h, fun _ h => h, fun _ h => h, fun _ h => h⟩, fun v hv => ?_⟩
      · exact fun response' v hv => h.responses response' v (htaken response' v hv)
      · cases hv
        obtain ⟨hid, hreplied⟩ := h.responses response envelope henvelope
        exact ⟨fun id hid' => h.id_eq hid hid', hreplied⟩
    · cases hx
  · cases hx
    exact ⟨h, fun j => .refl j w, fun v hv => by cases hv⟩
  · split at hx
    · cases hx
      exact ⟨h, fun j => .refl j w, fun v hv => by cases hv⟩
    · cases hx

theorem does_clientSend : Does c calls server i (.clientSend q) (fun w => Proper calls w i q)
    fun r w => r = none → (i, q) ∈ w.sent := by
  intro e w r w' h hq _ hx
  simp only [exec] at hx
  split at hx
  · cases hx
    exact ⟨h, fun j => .refl j w, fun hr => by cases hr⟩
  · cases hx
    have hgrow : w.sent ⊆ (i, q) :: w.sent := List.subset_cons_self ..
    refine ⟨⟨h.count, h.ids, h.le, h.nodup, h.callers, h.requests, h.responses, List.forall_mem_cons.mpr ⟨hq, h.sent⟩, ?_⟩,
      fun j => ⟨fun _ h => h, hgrow, fun _ h => h, fun _ h => h, fun _ h => h⟩, fun _ => List.mem_cons_self ..⟩
    intro s hs v hv
    obtain ⟨j, q', hmem, hrest⟩ := h.replied s hs v hv
    exact ⟨j, q', hgrow hmem, hrest⟩

/-! ## Programs -/

section
variable {α : Type} {post : World → α → Prop}

theorem sound_call {cmd : Cmd} {pre : World → Prop} {gives : Ans cmd → World → Prop} {k : Ans cmd → Prog Ans α}
    (h : Does c calls server i cmd pre gives) (hpre : ∀ a b, pre a → Rely i a b → pre b) (hw : pre w)
    (hk : ∀ r w', Rely i w w' → gives r w' → Sound c calls server i post (k r) w') :
    Sound c calls server i post (.call cmd k) w :=
  h.call (Rely.trans i) hpre hw hk

theorem sound_free {cmd : Cmd} {gives : Ans cmd → World → Prop} {k : Ans cmd → Prog Ans α}
    (h : Does c calls server i cmd (fun _ => True) gives)
    (hk : ∀ r w', Rely i w w' → gives r w' → Sound c calls server i post (k r) w') :
    Sound c calls server i post (.call cmd k) w :=
  sound_call h (fun _ _ _ _ => trivial) trivial hk

theorem sound_quiet {cmd : Cmd} {k : Ans cmd → Prog Ans α} (hc : Quiet cmd)
    (hk : ∀ r w', Rely i w w' → Sound c calls server i post (k r) w') : Sound c calls server i post (.call cmd k) w :=
  sound_free (does_quiet hc fun _ _ _ _ _ _ _ => trivial) fun r w' hr (_ : True) => hk r w' hr

theorem sound_nextID {k : UInt64 → Prog Ans α} {envelope : InternalEnvelope}
    (hfew : calls.countP Call.isRequest < 2 ^ 64) (hcall : calls[i]? = some (.request envelope))
    (hnew : ∀ id, (i, id) ∉ w.issued)
    (hk : ∀ id w', (i, id) ∈ w'.issued → Sound c calls server i post (k id) w') :
    Sound c calls server i post (.call .nextID k) w := by
  intro e w₁ r w₂ hr hinv _ hx
  cases hx
  refine ⟨hinv.push hfew hcall fun id hid => hnew id (hr.own id hid), fun j hj => ?_, hk _ _ (List.mem_cons_self ..)⟩
  refine ⟨List.subset_cons_self .., fun _ h => h, fun _ h => h, fun _ h => h, fun id hid => ?_⟩
  rcases List.mem_cons.mp hid with heq | hid
  · exact absurd (congrArg Prod.fst heq) hj
  · exact hid

end

theorem sound_clientSend {α : Type} {post : World → α → Prop} {k : Option GoErr → Prog Ans α}
    (hq : Proper calls w i q)
    (hk : ∀ r w', Rely i w w' → (r = none → (i, q) ∈ w'.sent) → Sound c calls server i post (k r) w') :
    Sound c calls server i post (Client.send q >>= k) w := by
  unfold Client.send
  simp only [Prog.perform_bind]
  refine sound_quiet trivial fun done w₁ hr₁ => ?_
  have hq₁ := hq.mono hr₁.issued
  cases done with
  | true => exact hk _ w₁ hr₁ fun h => by cases h
  | false =>
    exact sound_call does_clientSend (fun a b hq hr => hq.mono hr.issued) hq₁ fun r w₂ hr₂ hsent =>
      hk r w₂ (Rely.trans _ _ _ _ hr₁ hr₂) hsent

def Answered (server : Option Nat) (i : Nat) (envelope : InternalEnvelope) (w : World) : Except GoErr InternalEnvelope → Prop
  | .error _ => True
  | .ok v => (i, requestEnvelope envelope v.requestID) ∈ w.sent ∧ ∀ s ∈ server, (s, v) ∈ w.replied

theorem Answered.mono {r : Except GoErr InternalEnvelope} (h : Answered server i envelope w r) (hr : Rely i w w') :
    Answered server i envelope w' r := by
  cases r with
  | error err => trivial
  | ok v => exact ⟨hr.sent h.1, fun s hs => hr.replied (h.2 s hs)⟩

theorem sound_request (hfew : calls.countP Call.isRequest < 2 ^ 64) (hcall : calls[i]? = some (.request envelope))
    (hnew : ∀ id, (i, id) ∉ w.issued) :
    Sound c calls server i (Answered server i envelope) (Client.request envelope) w := by
  unfold Client.request
  simp only [Prog.perform_bind]
  refine sound_nextID hfew hcall hnew fun id w₁ hid => ?_
  refine sound_free does_makeResponse fun response w₂ hr₂ hresponse => ?_
  rw [hresponse]
  have hid₂ := hr₂.issued hid
  refine sound_call does_addRequest (fun a b h hr => hr.issued h) hid₂ fun _ w₃ hr₃ _ => ?_
  have hid₃ := hr₃.issued hid₂
  have hq : Proper calls w₃ i (requestEnvelope envelope id) := .inr (.inr ⟨envelope, hcall, rfl, hid₃⟩)
  have hremove : ∀ w₄ r, Answered server i envelope w₄ r →
      Sound c calls server i (Answered server i envelope) (.call (.removeRequest id) fun _ => .ret r) w₄ :=
    fun w₄ r h => sound_free does_removeRequest fun _ w₅ hr₅ _ => h.mono hr₅
  refine sound_clientSend hq fun r w₄ hr₄ hsent => ?_
  cases r with
  | some err => exact hremove w₄ (.error err) trivial
  | none =>
    refine sound_free does_await fun r w₅ hr₅ hr => hremove w₅ r ?_
    cases r with
    | error err => trivial
    | ok v =>
      obtain ⟨hid₅, hreplied⟩ := hr v rfl
      have heq : v.requestID = id := hid₅ id (hr₅.issued (hr₄.issued hid₃))
      exact ⟨heq ▸ hr₅.sent (hsent rfl), hreplied⟩

/-! ## The reader -/

theorem sound_receive (hv : v.kind = .response ∨ v.kind = .error → ∀ s ∈ server, (s, v) ∈ w.replied) :
    Sound c calls server i (fun _ _ => True) (Client.receive c v) w := by
  unfold Client.receive
  by_cases hkind : v.kind = .response ∨ v.kind = .error
  · rw [if_pos hkind]
    simp only [Prog.perform_bind]
    refine sound_free does_request fun r w₁ hr₁ hr => ?_
    cases r with
    | none => trivial
    | some response =>
      refine sound_call does_putResponse (fun a b h hr => ⟨hr.issued h.1, fun s hs => hr.replied (h.2 s hs)⟩)
        ⟨hr response rfl, fun s hs => hr₁.replied (hv hkind s hs)⟩ fun _ _ _ _ => ?_
      trivial
  · rw [if_neg hkind]
    split
    · exact sound_quiet trivial fun _ _ _ => trivial
    · trivial

theorem sound_readLoop : ∀ (n : Nat) (w : World), Sound c calls server i (fun _ _ => True) (Client.readLoop c n) w
  | 0, _ => sound_quiet trivial fun _ _ _ => trivial
  | n + 1, w => by
    unfold Client.readLoop
    simp only [Prog.perform_bind]
    refine sound_free does_clientRecv fun r w₁ _ hr => ?_
    cases r with
    | error err => exact sound_quiet trivial fun _ _ _ => trivial
    | ok v => exact Pool.Safe.bind (Pool.Safe.mono (fun w₂ _ _ => sound_readLoop n w₂) (sound_receive (hr v rfl)))

theorem sound_newClient (n : Nat) : Sound c calls server i (fun _ _ => True) (Client.newClient c n) w := by
  unfold Client.newClient Client.sendHello
  split
  · exact sound_quiet trivial fun _ _ _ => trivial
  · refine sound_clientSend (.inl rfl) fun r w₁ _ _ => ?_
    cases r with
    | some err => exact sound_quiet trivial fun _ _ _ => trivial
    | none => exact Pool.Safe.bind (Pool.Safe.mono (fun _ _ _ => trivial) (sound_readLoop n w₁))

/-! ## The server -/

def Came (server : Option Nat) (i : Nat) (q : InternalEnvelope) (w : World) : Prop :=
  ∀ s ∈ server, i = s → ∃ j, (j, q) ∈ w.sent

def Ready (c : Config) (server : Option Nat) (i : Nat) (v : InternalEnvelope) (w : World) : Prop :=
  ∀ s ∈ server, i = s → ∃ j q, (j, q) ∈ w.sent ∧ q.kind = .request ∧ Routed c w s q v

theorem Ready.mono (h : Ready c server i v w) (hr : Rely i w w') : Ready c server i v w' := by
  intro s hs his
  obtain ⟨j, q, hq, hkind, hrouted⟩ := h s hs his
  exact ⟨j, q, hr.sent hq, hkind, Routed.mono hrouted hr.handled⟩

theorem sound_send {peer : Peer} (hpeer : peer.connection = i) (hv : Ready c server i v w) :
    Sound c calls server i (fun _ _ => True) (peer.send v) w := by
  subst hpeer
  unfold Peer.send
  simp only [Prog.perform_bind]
  refine sound_quiet trivial fun done w₁ hr₁ => ?_
  cases done with
  | true => trivial
  | false => exact sound_call does_streamSend (fun a b h hr => Ready.mono h hr) (hv.mono hr₁) fun _ _ _ _ => trivial

theorem sound_dispatch {peer : Peer} {reply : Bool} (hpeer : peer.connection = i)
    (hreply : reply = true → q.kind = .request ∧ Came server i q w) :
    Sound c calls server i (fun _ _ => True) (Router.dispatch c peer q reply) w := by
  -- An envelope that is the router's answer to `q` may be sent.
  have hready : ∀ w₁ v, Rely i w w₁ → reply = true → (∀ s, i = s → Routed c w₁ s q v) → Ready c server i v w₁ := by
    intro w₁ v hr hrep hrouted s hs his
    obtain ⟨hkind, hcame⟩ := hreply hrep
    obtain ⟨j, hj⟩ := hcame s hs his
    exact ⟨j, q, hr.sent hj, hkind, hrouted s his⟩
  unfold Router.dispatch
  split
  · rename_i hnone
    cases reply with
    | false => trivial
    | true =>
      refine sound_send hpeer (hready w _ (.refl i w) rfl fun s _ => ?_)
      simp [Routed, hnone]
  · rename_i handler hsome
    simp only [Prog.perform_bind]
    refine sound_free does_handleMessage fun outcome w₁ hr₁ hhandled => ?_
    have hrouted : ∀ v, replyTo peer q outcome = some v → ∀ s, i = s → Routed c w₁ s q v := by
      intro v hv s his
      simp only [Routed, hsome]
      exact ⟨peer, outcome, hpeer.trans his, hhandled, hv⟩
    cases outcome with
    | error err =>
      cases reply with
      | false => trivial
      | true => exact sound_send hpeer (hready w₁ _ hr₁ rfl (hrouted _ rfl))
    | ok result =>
      cases result with
      | none => trivial
      | some result =>
        obtain ⟨messageID, message⟩ := result
        cases reply with
        | false => trivial
        | true =>
          rcases message with _ | (err | payload)
          · trivial
          · trivial
          · exact sound_send hpeer (hready w₁ _ hr₁ rfl (hrouted _ rfl))

theorem sound_handle {peer : Peer} (hpeer : peer.connection = i) (hcame : Came server i q w)
    (hkind : ∀ s ∈ server, i = s → q.kind = .event ∨ q.kind = .request) :
    Sound c calls server i (fun _ _ => True) (Router.handle c peer q) w := by
  unfold Router.handle
  split_ifs with hevent hrequest
  · exact sound_dispatch hpeer fun h => by cases h
  · refine sound_send hpeer fun s hs his => ?_
    rcases hkind s hs his with h | h
    · exact absurd h hevent
    · exact absurd h hrequest
  · exact sound_dispatch hpeer fun _ => ⟨not_not.mp hrequest, hcame⟩

theorem does_streamRecv : Does c calls server i .streamRecv pre fun r w =>
    ∀ q, r = .ok q → Came server i q w ∧ ∀ s ∈ server, i = s → q.kind = .hello ∨ q.kind = .event ∨ q.kind = .request := by
  refine does_quiet trivial fun e w r w' h hg hx q hq => ?_
  cases hx
  have hcame : Came server i q w := fun s hs his => hg s hs his q hq
  refine ⟨hcame, fun s hs his => ?_⟩
  obtain ⟨j, hj⟩ := hcame s hs his
  rcases h.sent _ hj with hello | event | ⟨envelope, -, heq, -⟩
  · exact .inl hello
  · exact .inr (.inl event)
  · exact .inr (.inr (congrArg InternalEnvelope.kind heq))

theorem sound_serve {peer : Peer} (hpeer : peer.connection = i) : ∀ (n : Nat) (w : World),
    Sound c calls server i (fun _ _ => True) (Server.serve c peer n) w
  | 0, _ => trivial
  | n + 1, w => by
    unfold Server.serve
    simp only [Prog.perform_bind]
    refine sound_free does_streamRecv fun r w₁ _ hr => ?_
    cases r with
    | error err => trivial
    | ok q =>
      obtain ⟨hcame, hkind⟩ := hr q rfl
      dsimp only
      split_ifs with hhello
      · trivial
      · have hkind' : ∀ s ∈ server, i = s → q.kind = .event ∨ q.kind = .request :=
          fun s hs his => (hkind s hs his).resolve_left hhello
        refine Pool.Safe.bind (Pool.Safe.mono (fun w₂ err _ => ?_) (sound_handle hpeer hcame hkind'))
        cases err with
        | some err => trivial
        | none => exact sound_serve hpeer n w₂

theorem sound_connect (n : Nat) : Sound c calls server i (fun _ _ => True) (Server.connect c n) w := by
  unfold Server.connect
  simp only [Prog.perform_bind]
  refine sound_quiet trivial fun r w₁ _ => ?_
  cases r with
  | error err => trivial
  | ok first =>
    dsimp only
    split
    · trivial
    · refine sound_free does_newConnection fun connection w₂ _ hconnection => ?_
      refine sound_quiet trivial fun _ w₃ _ => ?_
      refine Pool.Safe.bind (Pool.Safe.mono (fun w₄ err _ => ?_) (sound_serve hconnection n w₃))
      exact sound_quiet trivial fun _ w₅ _ => sound_quiet trivial fun _ _ _ => trivial

/-! ## Runs -/

def Returns (calls : List Call) (server : Option Nat) (i : Nat) (w : World) : Result → Prop
  | .response r => ∀ envelope, calls[i]? = some (.request envelope) → Answered server i envelope w r
  | _ => True

theorem sound_handler (hfew : calls.countP Call.isRequest < 2 ^ 64) {call : Call} (hcall : calls[i]? = some call)
    (hnew : ∀ id, (i, id) ∉ w.issued) :
    Sound c calls server i (Returns calls server i) (call.handler c) w := by
  cases call with
  | connect n => exact Pool.Safe.bind (Pool.Safe.mono (fun _ _ _ => trivial) (sound_connect n))
  | peer serviceType instanceID => exact sound_quiet trivial fun _ _ _ => trivial
  | newClient n => exact Pool.Safe.bind (Pool.Safe.mono (fun _ _ _ => trivial) (sound_newClient n))
  | sendEvent envelope => exact sound_clientSend (.inr (.inl rfl)) fun _ _ _ _ => trivial
  | close => exact sound_quiet trivial fun _ _ _ => trivial
  | request envelope =>
    refine Pool.Safe.bind (Pool.Safe.mono (fun w₁ r hr => ?_) (sound_request hfew hcall hnew))
    intro envelope' hcall'
    cases hcall.symm.trans hcall'
    exact hr

theorem inv_init : Inv c calls server {} := by
  constructor <;> simp

theorem good_run (hfew : calls.countP Call.isRequest < 2 ^ 64) {schedule : List (Nat × Env)}
    (hlinked : Pool.Along exec (Pool.Issues (G server)) (State.init c calls) schedule) :
    Pool.Good exec (G server) (Inv c calls server) Rely (Returns calls server)
      (Pool.run exec (State.init c calls) schedule) := by
  refine Pool.safe_run Rely.refl Rely.trans (Pool.good_start Rely.refl inv_init ?_) hlinked
  exact Pool.forall_map fun _ _ hcall => sound_handler hfew hcall fun id h => by cases h

theorem along_none (s : State) (schedule : List (Nat × Env)) : Pool.Along exec (Pool.Issues (G none)) s schedule :=
  Pool.along_of_forall exec (fun _ _ _ _ _ _ h => by cases h) schedule s

theorem along_some {server : Nat} {s : State} {schedule : List (Nat × Env)}
    (h : Pool.Along exec (Pool.Issues (Linked server)) s schedule) :
    Pool.Along exec (Pool.Issues (G (some server))) s schedule := by
  refine h.mono fun s a hi cmd k hp server' hs => ?_
  cases hs
  exact hi cmd k hp

theorem answered_run {s : State}
    (hgood : Pool.Good exec (G server) (Inv c calls server) Rely (Returns calls server) s)
    (hcall : calls[i]? = some (.request envelope)) (hanswer : s.answer i = some (.response (.ok v))) :
    Answered server i envelope s.world (.ok v) := by
  obtain ⟨w, hpost, hrely⟩ := hgood.ret i _ (Pool.answer_eq_some hanswer)
  exact (hpost envelope hcall).mono hrely

theorem Inv.issued_of_sent (h : Inv c calls server w) (hq : (i, q) ∈ w.sent) (hkind : q.kind = .request) :
    ∃ envelope, calls[i]? = some (.request envelope) ∧ q = requestEnvelope envelope q.requestID ∧
      (i, q.requestID) ∈ w.issued := by
  rcases h.sent _ hq with hello | event | hproper
  · exact absurd (hkind.symm.trans hello) (by decide)
  · exact absurd (hkind.symm.trans event) (by decide)
  · exact hproper

end Correlation

/-- The envelope a `Request` returns carries the id this very call has sent, no
two calls have drawn the same id, and if the client is at the other end of a
stream of the server, the envelope is what its router made of this call's own
request. -/
theorem requests_correlate (c : Config) (calls : List Call) (hfew : calls.countP Call.isRequest < 2 ^ 64)
    (schedule : List (Nat × Env)) :
    let s := Pool.run exec (State.init c calls) schedule
    (∀ i j id, (i, id) ∈ s.world.issued → (j, id) ∈ s.world.issued → i = j) ∧
    (∀ i q, (i, q) ∈ s.world.sent → q.kind = .request → (i, q.requestID) ∈ s.world.issued) ∧
    (∀ i envelope v, calls[i]? = some (.request envelope) → s.answer i = some (.response (.ok v)) →
      (i, requestEnvelope envelope v.requestID) ∈ s.world.sent) ∧
    ∀ server, Pool.Along exec (Pool.Issues (Linked server)) (State.init c calls) schedule →
      ∀ i envelope v, calls[i]? = some (.request envelope) → s.answer i = some (.response (.ok v)) →
        Routed c s.world server (requestEnvelope envelope v.requestID) v := by
  intro s
  have hgood := Correlation.good_run (c := c) hfew (Correlation.along_none _ schedule)
  refine ⟨fun i j id => hgood.world.caller_eq, ?_, ?_, ?_⟩
  · intro i q hq hkind
    obtain ⟨-, -, -, hissued⟩ := hgood.world.issued_of_sent hq hkind
    exact hissued
  · intro i envelope v hcall hanswer
    exact (Correlation.answered_run hgood hcall hanswer).1
  · intro server hlinked i envelope v hcall hanswer
    have hgood' := Correlation.good_run hfew (Correlation.along_some hlinked)
    obtain ⟨hsent, hreplied⟩ := Correlation.answered_run hgood' hcall hanswer
    obtain ⟨j, q, hq, hkind, hrouted⟩ := hgood'.world.replied server rfl v (hreplied server rfl)
    -- The request that was answered has the id of this call, so it is its own.
    obtain ⟨envelope', hcall', heq, hj⟩ := hgood'.world.issued_of_sent hq hkind
    obtain ⟨-, -, -, hi⟩ := hgood'.world.issued_of_sent hsent rfl
    rw [← Correlation.Routed.requestID hrouted] at hj heq
    obtain rfl : i = j := hgood'.world.caller_eq hi hj
    cases hcall.symm.trans hcall'
    exact heq ▸ hrouted

def asking : Config where
  marshalHello _ := .ok []
  unmarshalHello _ := some ⟨.gateway, "gateway-1"⟩
  handlers := Handlers.register ∅ .lobby 10 0
  service := .gateway
  instanceID := "gateway-1"
  onEvent := false

theorem requests_correlate_once :
    let question : InternalEnvelope := { targetService := .lobby, messageID := 10, payload := [1] }
    let answer := responseEnvelope ⟨.gateway, "gateway-1", 0⟩ (requestEnvelope question 1) 11 [2]
    let schedule : List (Nat × Env) := [(1, {}), (1, {}), (0, { received := .ok { kind := .hello, sourceService := .gateway } }),
      (0, {}), (0, {}), (2, {}), (2, {}), (2, {}), (2, {}), (2, {}), (0, { received := .ok (requestEnvelope question 1) }),
      (0, { outcome := .ok (some ⟨11, some (.ok [2])⟩) }), (0, {}), (0, {}), (1, { received := .ok answer }), (1, {}), (1, {}),
      (2, {}), (2, {}), (1, { received := .ok answer }), (1, {})]
    let s := Pool.run exec (State.init asking [.connect 2, .newClient 2, .request question]) schedule
    s.answer 2 = some (.response (.ok answer)) ∧ Routed asking s.world 0 (requestEnvelope question 1) answer := by
  intro question answer schedule s
  have hanswer : s.answer 2 = some (.response (.ok answer)) := by decide +kernel
  have hlinked : Pool.Along exec (Pool.Issues (Linked 0)) (State.init asking [.connect 2, .newClient 2, .request question])
      schedule := by decide +kernel
  obtain ⟨-, -, -, hrouted⟩ := requests_correlate asking [.connect 2, .newClient 2, .request question] (by decide) schedule
  exact ⟨hanswer, hrouted 0 hlinked 2 question answer rfl hanswer⟩

end GameServer.Streaming
