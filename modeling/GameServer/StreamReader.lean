import GameServer.Streaming
import GameServer.Journal

/-!
# The reader and the response channels

`readLoop` looks the channel of a reply up, lets the lock go and sends. The
channel holds one envelope and nobody else sends, so the send waits only when an
earlier reply to the same `Request` is still in the channel. With two replies of
one id the second waits, and once the `Request` has returned it waits for ever.
-/

namespace GameServer.Streaming

/-! ## Where a handler is -/

def InternalEnvelope.isReply (envelope : InternalEnvelope) : Bool := envelope.kind = .response ∨ envelope.kind = .error

inductive Phase
  | fresh
  | drew (id : UInt64)
  | made (id : UInt64) (response : Nat)
  | registered
  | idle
  | reading (envelope : InternalEnvelope)
  | found (envelope : InternalEnvelope) (response : Nat)

def Cmd.isPhased : Cmd → Bool
  | .nextID | .makeResponse | .addRequest _ _ | .clientRecv | .request _ | .putResponse _ _ => true
  | _ => false

namespace Phase

def next : Phase → (cmd : Cmd) → Ans cmd → Phase
  | .fresh, .nextID, id => .drew id
  | .drew id, .makeResponse, response => .made id response
  | .made _ _, .addRequest _ _, _ => .registered
  | .idle, .clientRecv, .ok envelope => if envelope.isReply then .reading envelope else .idle
  | .reading envelope, .request _, some response => .found envelope response
  | .reading _, .request _, none => .idle
  | .found _ _, .putResponse _ _, _ => .idle
  | phase, _, _ => phase

def Allows : Phase → Cmd → Prop
  | .fresh, cmd => cmd.isPhased = false ∨ cmd = .nextID
  | .drew _, cmd => cmd = .makeResponse
  | .made id response, cmd => cmd = .addRequest id response
  | .registered, cmd => cmd.isPhased = false
  | .idle, cmd => cmd.isPhased = false ∨ cmd = .clientRecv
  | .reading envelope, cmd => cmd = .request envelope.requestID
  | .found envelope response, cmd => cmd = .putResponse response envelope

def inHand : Phase → Option InternalEnvelope
  | .reading envelope | .found envelope _ => some envelope
  | _ => none

def isReader : Phase → Bool
  | .idle | .reading _ | .found _ _ => true
  | _ => false

theorem next_of_not_isPhased {cmd : Cmd} (h : cmd.isPhased = false) (phase : Phase) (r : Ans cmd) : phase.next cmd r = phase := by
  cases cmd with
  | nextID | makeResponse | addRequest _ _ | clientRecv | request _ | putResponse _ _ => cases h
  | _ => cases phase <;> rfl

end Phase

def Call.phase : Call → Phase
  | .newClient _ => .idle
  | _ => .fresh

/-! ## The handlers -/

section
variable {α : Type}

abbrev Phased (phase : Phase) (prog : Prog Ans α) : Prop := prog.Obeys Phase.Allows Phase.next (fun _ _ => True) phase

abbrev Unphased (prog : Prog Ans α) : Prop := prog.Uses fun cmd => cmd.isPhased = false

theorem phased_unphased (phase : Phase) {prog : Prog Ans α} (h : Unphased prog)
    (hphase : ∀ cmd : Cmd, cmd.isPhased = false → phase.Allows cmd) :
    prog.Obeys Phase.Allows Phase.next (fun q _ => q = phase) phase :=
  Prog.Obeys.of_uses (fun cmd hcmd => ⟨hphase cmd hcmd, Phase.next_of_not_isPhased hcmd phase⟩) h

theorem unphased_send (envelope : InternalEnvelope) : Unphased (Client.send envelope) := by
  refine ⟨rfl, fun r => ?_⟩
  cases r with
  | true => trivial
  | false => exact ⟨rfl, fun _ => trivial⟩

theorem phased_request (envelope : InternalEnvelope) : Phased .fresh (Client.request envelope) := by
  refine ⟨.inr rfl, fun id => ⟨rfl, fun response => ⟨rfl, fun _ => ?_⟩⟩⟩
  -- the rest only sends, waits and takes the registration back
  refine Prog.Obeys.mono (fun _ _ _ => trivial) (phased_unphased .registered ?_ fun _ h => h)
  refine (unphased_send _).bind fun r => ?_
  cases r with
  | some err => exact ⟨rfl, fun _ => trivial⟩
  | none => exact ⟨rfl, fun _ => ⟨rfl, fun _ => trivial⟩⟩

theorem phased_receive (c : Config) (envelope : InternalEnvelope) :
    (Client.receive c envelope).Obeys Phase.Allows Phase.next (fun q _ => q = .idle)
      (if envelope.isReply then .reading envelope else .idle) := by
  unfold Client.receive
  by_cases h : envelope.kind = .response ∨ envelope.kind = .error
  · have hreply : envelope.isReply = true := decide_eq_true h
    rw [if_pos h, if_pos hreply]
    refine ⟨rfl, fun r => ?_⟩
    cases r with
    | none => rfl
    | some response => exact ⟨rfl, fun _ => rfl⟩
  · have hreply : ¬ envelope.isReply = true := by simpa [InternalEnvelope.isReply] using h
    rw [if_neg h, if_neg hreply]
    split
    · exact ⟨.inl rfl, fun _ => rfl⟩
    · rfl

theorem phased_readLoop (c : Config) (n : Nat) :
    (Client.readLoop c n).Obeys Phase.Allows Phase.next (fun q _ => q = .idle) .idle := by
  have hclose : Client.close.Obeys Phase.Allows Phase.next (fun q _ => q = .idle) .idle := ⟨.inl rfl, fun _ => rfl⟩
  induction n with
  | zero => exact hclose
  | succ n ih =>
    refine ⟨.inr rfl, fun r => ?_⟩
    cases r with
    | error err => exact hclose
    | ok envelope =>
      have hloop : (Client.receive c envelope >>= fun _ => Client.readLoop c n).Obeys Phase.Allows Phase.next
          (fun q _ => q = .idle) (if envelope.isReply then .reading envelope else .idle) := by
        refine Prog.Obeys.bind ((phased_receive c envelope).mono fun q _ hq => ?_)
        rw [hq]
        exact ih
      exact hloop

theorem phased_newClient (c : Config) (n : Nat) : Phased .idle (Client.newClient c n) := by
  have hhello : Unphased (Client.sendHello c) := by
    unfold Client.sendHello
    split
    · trivial
    · exact unphased_send _
  refine Prog.Obeys.bind ((phased_unphased .idle hhello fun _ h => Or.inl h).mono fun q r hq => ?_)
  rw [hq]
  cases r with
  | some err => exact ⟨.inl rfl, fun _ => trivial⟩
  | none => exact Prog.Obeys.bind ((phased_readLoop c n).mono fun _ _ _ => trivial)

theorem unphased_peerSend (peer : Peer) (envelope : InternalEnvelope) : Unphased (peer.send envelope) := by
  refine ⟨rfl, fun r => ?_⟩
  cases r with
  | true => trivial
  | false => exact ⟨rfl, fun _ => trivial⟩

theorem unphased_dispatch (c : Config) (peer : Peer) (envelope : InternalEnvelope) (reply : Bool) :
    Unphased (Router.dispatch c peer envelope reply) := by
  unfold Router.dispatch
  split
  · split
    · exact unphased_peerSend peer _
    · trivial
  · refine ⟨rfl, fun r => ?_⟩
    cases r with
    | error err =>
      cases reply with
      | true => exact unphased_peerSend peer _
      | false => trivial
    | ok result =>
      cases result with
      | none => trivial
      | some result =>
        obtain ⟨messageID, message⟩ := result
        cases reply with
        | false => cases message <;> trivial
        | true =>
          cases message with
          | none => trivial
          | some message =>
            cases message with
            | error err => trivial
            | ok payload => exact unphased_peerSend peer _

theorem unphased_handle (c : Config) (peer : Peer) (envelope : InternalEnvelope) :
    Unphased (Router.handle c peer envelope) := by
  unfold Router.handle
  split
  · exact unphased_dispatch c peer envelope false
  split
  · exact unphased_peerSend peer _
  · exact unphased_dispatch c peer envelope true

theorem unphased_serve (c : Config) (peer : Peer) (n : Nat) : Unphased (Server.serve c peer n) := by
  induction n with
  | zero => trivial
  | succ n ih =>
    unfold Server.serve
    simp only [Prog.perform_bind]
    refine ⟨rfl, fun r => ?_⟩
    cases r with
    | error err => trivial
    | ok envelope =>
      dsimp only
      split
      · trivial
      refine (unphased_handle c peer envelope).bind fun r => ?_
      cases r with
      | some err => trivial
      | none => exact ih

theorem unphased_connect (c : Config) (n : Nat) : Unphased (Server.connect c n) := by
  unfold Server.connect
  simp only [Prog.perform_bind]
  refine ⟨rfl, fun r => ?_⟩
  cases r with
  | error err => trivial
  | ok first =>
    dsimp only
    split
    · trivial
    · refine ⟨rfl, fun connection => ⟨rfl, fun _ => (unphased_serve c _ n).bind fun _ => ?_⟩⟩
      exact ⟨rfl, fun _ => ⟨rfl, fun _ => trivial⟩⟩

theorem phased_handler (c : Config) (call : Call) : Phased call.phase (call.handler c) := by
  have hfresh : ∀ {β : Type} {prog : Prog Ans β}, Unphased prog → Phased .fresh prog := fun h =>
    (phased_unphased .fresh h fun _ h => Or.inl h).mono fun _ _ _ => trivial
  cases call with
  | connect envelopes => exact hfresh ((unphased_connect c envelopes).bind fun _ => trivial)
  | peer serviceType instanceID => exact hfresh ⟨rfl, fun _ => trivial⟩
  | newClient envelopes => exact Prog.Obeys.bind ((phased_newClient c envelopes).mono fun _ _ _ => trivial)
  | request envelope => exact Prog.Obeys.bind ((phased_request envelope).mono fun _ _ _ => trivial)
  | sendEvent envelope => exact hfresh ((unphased_send _).bind fun _ => trivial)
  | close => exact hfresh ⟨rfl, fun _ => trivial⟩

end

/-! ## What the channels hold -/

def heard : (cmd : Cmd) → Ans cmd → List InternalEnvelope
  | .clientRecv, .ok envelope => [envelope]
  | _, _ => []

def received (journal : List (Pool.Entry Ans)) : List InternalEnvelope := journal.flatMap fun x => heard x.cmd x.answer

def replyIDs (envelopes : List InternalEnvelope) : List UInt64 :=
  (envelopes.filter (·.isReply)).map (·.requestID)

theorem received_snoc (journal : List (Pool.Entry Ans)) (i : Nat) (cmd : Cmd) (r : Ans cmd) :
    received (journal ++ [⟨i, cmd, r⟩]) = received journal ++ heard cmd r := by
  rw [received, List.flatMap_append, List.flatMap_singleton]
  rfl

theorem heard_of_ne {cmd : Cmd} (h : cmd ≠ .clientRecv) (r : Ans cmd) : heard cmd r = [] := by
  cases cmd with
  | clientRecv => exact absurd rfl h
  | _ => rfl

theorem replyIDs_append (l l' : List InternalEnvelope) : replyIDs (l ++ l') = replyIDs l ++ replyIDs l' := by
  rw [replyIDs, List.filter_append, List.map_append]
  rfl

/-- The tables of the client while the calls are in the phases `φ`, with the
replies `ids` received by the reader `ρ`. A channel is registered under the one
id its `Request` drew, and what it holds is an earlier reply to that. -/
structure Tracked (ρ : Nat) (w : World) (φ : Nat → Phase) (ids : List UInt64) : Prop where
  drawn : ∀ r x y, (r, x) ∈ w.issued → (r, y) ∈ w.issued → x = y
  fresh : ∀ i x, φ i = .fresh → (i, x) ∉ w.issued
  drew : ∀ i id, φ i = .drew id → (i, id) ∈ w.issued
  made : ∀ i id response, φ i = .made id response → response = i ∧ (i, id) ∈ w.issued
  requests : ∀ id response, w.requests.lookup id = some response → (response, id) ∈ w.issued
  found : ∀ i envelope response, φ i = .found envelope response → (response, envelope.requestID) ∈ w.issued
  reader : ∀ i, (φ i).isReader = true → i = ρ
  held : ∃ settled, ids = settled ++ ((φ ρ).inHand.map (·.requestID)).toList ∧
    ∀ response envelope, w.responses response = some envelope →
      (response, envelope.requestID) ∈ w.issued ∧ envelope.requestID ∈ settled

section
variable {ρ i : Nat} {e : Env} {w w' : World} {φ : Nat → Phase} {ids : List UInt64} {cmd : Cmd}

theorem exec_unphased (hcmd : cmd.isPhased = false) {r : Ans cmd} (hx : exec i e w cmd = some (r, w')) :
    w'.issued = w.issued ∧ (∀ id response, w'.requests.lookup id = some response → w.requests.lookup id = some response) ∧
      ∀ response envelope, w'.responses response = some envelope → w.responses response = some envelope := by
  cases cmd with
  | nextID | makeResponse | addRequest _ _ | clientRecv | request _ | putResponse _ _ => cases hcmd
  | streamRecv | newConnection | addPeer _ | removePeer _ | peer _ | closeConnection _ | connectionDone _
  | handleMessage _ _ _ | clientDone | closeClient | handleEvent _ =>
    cases hx
    exact ⟨rfl, fun _ _ h => h, fun _ _ h => h⟩
  | streamSend connection envelope =>
    simp only [exec] at hx
    split at hx <;> (cases hx; exact ⟨rfl, fun _ _ h => h, fun _ _ h => h⟩)
  | clientSend envelope =>
    simp only [exec] at hx
    split at hx <;> (cases hx; exact ⟨rfl, fun _ _ h => h, fun _ _ h => h⟩)
  | removeRequest id =>
    cases hx
    refine ⟨rfl, fun id' response h => ?_, fun _ _ h => h⟩
    by_cases hid : id' = id
    · rw [hid, AList.lookup_erase] at h
      cases h
    · rwa [AList.lookup_erase_ne hid] at h
  | await response =>
    simp only [exec, World.await] at hx
    split at hx
    · split at hx
      · cases hx
        refine ⟨rfl, fun _ _ h => h, fun response' envelope h => ?_⟩
        have h : Function.update w.responses response none response' = some envelope := h
        by_cases hr : response' = response
        · subst hr
          rw [Function.update_self] at h
          cases h
        · rwa [Function.update_of_ne hr] at h
      · cases hx
    · cases hx
      exact ⟨rfl, fun _ _ h => h, fun _ _ h => h⟩
    · split at hx
      · cases hx
        exact ⟨rfl, fun _ _ h => h, fun _ _ h => h⟩
      · cases hx

namespace Tracked

theorem move (h : Tracked ρ w φ ids) (q : Phase) (ids' : List UInt64) (hissued : w'.issued = w.issued)
    (hfresh : q ≠ .fresh) (hdrew : ∀ id, q = .drew id → (i, id) ∈ w.issued)
    (hmade : ∀ id response, q = .made id response → response = i ∧ (i, id) ∈ w.issued)
    (hfound : ∀ envelope response, q = .found envelope response → (response, envelope.requestID) ∈ w.issued)
    (hreader : q.isReader = true → i = ρ)
    (hrequests : ∀ id response, w'.requests.lookup id = some response → (response, id) ∈ w.issued)
    (hheld : ∃ settled, ids' = settled ++ ((Function.update φ i q ρ).inHand.map (·.requestID)).toList ∧
      ∀ response envelope, w'.responses response = some envelope →
        (response, envelope.requestID) ∈ w.issued ∧ envelope.requestID ∈ settled) :
    Tracked ρ w' (Function.update φ i q) ids' := by
  -- a field of the others holds as before, that of the call itself is given
  have hat : ∀ {p : Nat → Phase → Prop}, p i q → (∀ j, p j (φ j)) → ∀ j, p j (Function.update φ i q j) := by
    intro p hself hothers j
    by_cases hj : j = i
    · subst hj
      rw [Function.update_self]
      exact hself
    · rw [Function.update_of_ne hj]
      exact hothers j
  refine ⟨?_, ?_, ?_, ?_, ?_, ?_, ?_, ?_⟩
  · rw [hissued]; exact h.drawn
  · rw [hissued]
    exact fun j x => hat (p := fun j phase => phase = .fresh → (j, x) ∉ w.issued) (fun hq => absurd hq hfresh)
      (fun j => h.fresh j x) j
  · rw [hissued]
    exact fun j id => hat (p := fun j phase => phase = .drew id → (j, id) ∈ w.issued) (hdrew id) (fun j => h.drew j id) j
  · rw [hissued]
    exact fun j id response => hat (p := fun j phase => phase = .made id response → response = j ∧ (j, id) ∈ w.issued)
      (hmade id response) (fun j => h.made j id response) j
  · rw [hissued]; exact hrequests
  · rw [hissued]
    exact fun j envelope response => hat
      (p := fun _ phase => phase = .found envelope response → (response, envelope.requestID) ∈ w.issued)
      (hfound envelope response) (fun j => h.found j envelope response) j
  · exact hat (p := fun j phase => phase.isReader = true → j = ρ) hreader h.reader
  · rw [hissued]; exact hheld

theorem inHand_of_ne {q : Phase} (hi : (φ i).isReader = false) (hq : q.isReader = false) :
    (Function.update φ i q ρ).inHand = (φ ρ).inHand := by
  by_cases hρ : ρ = i
  · subst hρ
    rw [Function.update_self]
    cases hφ : φ ρ with
    | idle | reading _ | found _ _ => rw [hφ] at hi; cases hi
    | _ => cases q with
      | idle | reading _ | found _ _ => cases hq
      | _ => rfl
  · rw [Function.update_of_ne hρ]

theorem other (h : Tracked ρ w φ ids) (hcmd : cmd.isPhased = false) {r : Ans cmd}
    (hx : exec i e w cmd = some (r, w')) : Tracked ρ w' φ ids := by
  obtain ⟨hissued, hrequests, hresponses⟩ := exec_unphased hcmd hx
  obtain ⟨settled, hids, hheld⟩ := h.held
  refine ⟨hissued ▸ h.drawn, hissued ▸ h.fresh, hissued ▸ h.drew, hissued ▸ h.made, ?_, hissued ▸ h.found, h.reader,
    settled, hids, ?_⟩
  · exact fun id response hl => hissued ▸ h.requests id response (hrequests id response hl)
  · exact fun response envelope hr => hissued ▸ hheld response envelope (hresponses response envelope hr)

theorem nextID (h : Tracked ρ w φ ids) (hi : φ i = .fresh) {r : UInt64} (hx : exec i e w .nextID = some (r, w')) :
    Tracked ρ w' (Function.update φ i (.drew r)) ids := by
  cases hx
  -- the call has drawn nothing before
  have hnone : ∀ x, (i, x) ∉ w.issued := fun x => h.fresh i x hi
  have hgrow : ∀ x, x ∈ w.issued → x ∈ (i, w.nextID + 1) :: w.issued := fun x hx => List.mem_cons_of_mem _ hx
  refine ⟨?_, ?_, ?_, ?_, ?_, ?_, ?_, ?_⟩
  · intro r x y hx hy
    rcases List.mem_cons.mp hx with hx | hx
    · rcases List.mem_cons.mp hy with hy | hy
      · cases hx; cases hy; rfl
      · cases hx; exact absurd hy (hnone y)
    · rcases List.mem_cons.mp hy with hy | hy
      · cases hy; exact absurd hx (hnone x)
      · exact h.drawn r x y hx hy
  · intro j x hj
    have hne : j ≠ i := by
      rintro rfl
      rw [Function.update_self] at hj
      cases hj
    rw [Function.update_of_ne hne] at hj
    refine List.not_mem_cons_of_ne_of_not_mem (fun heq => hne ?_) (h.fresh j x hj)
    exact (Prod.mk.inj heq).1
  · intro j id hj
    by_cases hji : j = i
    · subst hji
      rw [Function.update_self] at hj
      cases hj
      exact List.mem_cons_self ..
    · rw [Function.update_of_ne hji] at hj
      exact hgrow _ (h.drew j id hj)
  · intro j id response hj
    by_cases hji : j = i
    · subst hji
      rw [Function.update_self] at hj
      cases hj
    · rw [Function.update_of_ne hji] at hj
      exact (h.made j id response hj).imp_right (hgrow _)
  · exact fun id response hl => hgrow _ (h.requests id response hl)
  · intro j envelope response hj
    by_cases hji : j = i
    · subst hji
      rw [Function.update_self] at hj
      cases hj
    · rw [Function.update_of_ne hji] at hj
      exact hgrow _ (h.found j envelope response hj)
  · intro j hj
    by_cases hji : j = i
    · subst hji
      rw [Function.update_self] at hj
      cases hj
    · rw [Function.update_of_ne hji] at hj
      exact h.reader j hj
  · obtain ⟨settled, hids, hheld⟩ := h.held
    refine ⟨settled, ?_, fun response envelope hr => (hheld response envelope hr).imp_left (hgrow _)⟩
    rw [inHand_of_ne (by rw [hi]; rfl) rfl]
    exact hids

theorem makeResponse (h : Tracked ρ w φ ids) {id : UInt64} (hi : φ i = .drew id) {r : Nat}
    (hx : exec i e w .makeResponse = some (r, w')) : Tracked ρ w' (Function.update φ i (.made id r)) ids := by
  cases hx
  obtain ⟨settled, hids, hheld⟩ := h.held
  refine h.move _ _ rfl (by simp) (by simp) ?_ (by simp) (by simp [Phase.isReader]) h.requests ⟨settled, ?_, ?_⟩
  · rintro _ _ ⟨⟩
    exact ⟨rfl, h.drew i id hi⟩
  · rw [inHand_of_ne (by rw [hi]; rfl) rfl]
    exact hids
  · intro response envelope hr
    have hr : Function.update w.responses i none response = some envelope := hr
    by_cases hri : response = i
    · rw [hri, Function.update_self] at hr
      cases hr
    · rw [Function.update_of_ne hri] at hr
      exact hheld response envelope hr

theorem addRequest (h : Tracked ρ w φ ids) {id : UInt64} {response : Nat} (hi : φ i = .made id response) {r : Unit}
    (hx : exec i e w (.addRequest id response) = some (r, w')) : Tracked ρ w' (Function.update φ i .registered) ids := by
  cases hx
  obtain ⟨settled, hids, hheld⟩ := h.held
  obtain ⟨rfl, hdrawn⟩ := h.made i id response hi
  refine h.move _ _ rfl (by simp) (by simp) (by simp) (by simp) (by simp [Phase.isReader]) ?_ ⟨settled, ?_, hheld⟩
  · intro id' response' hl
    have hl : (w.requests.insert id response).lookup id' = some response' := hl
    by_cases hid : id' = id
    · rw [hid, AList.lookup_insert] at hl
      cases hl
      exact hid ▸ hdrawn
    · rw [AList.lookup_insert_ne hid] at hl
      exact h.requests id' response' hl
  · rw [inHand_of_ne (by rw [hi]; rfl) rfl]
    exact hids

theorem read (h : Tracked ρ w φ ids) (hi : (φ i).isReader = true) (q : Phase) (ids' settled' : List UInt64)
    (hissued : w'.issued = w.issued) (hq : q.isReader = true)
    (hfound : ∀ envelope response, q = .found envelope response → (response, envelope.requestID) ∈ w.issued)
    (hrequests : w'.requests = w.requests) (hids' : ids' = settled' ++ (q.inHand.map (·.requestID)).toList)
    (hheld : ∀ response envelope, w'.responses response = some envelope →
      (response, envelope.requestID) ∈ w.issued ∧ envelope.requestID ∈ settled') :
    Tracked ρ w' (Function.update φ i q) ids' := by
  obtain rfl : i = ρ := h.reader i hi
  refine h.move q ids' hissued ?_ ?_ ?_ hfound (fun _ => rfl) (hrequests ▸ h.requests) ⟨settled', ?_, hheld⟩
  · rintro rfl; cases hq
  · rintro _ rfl; cases hq
  · rintro _ _ rfl; cases hq
  · rw [Function.update_self]
    exact hids'

theorem putResponse_eq {envelope : InternalEnvelope} {response : Nat} {r : Unit}
    (hx : exec i e w (.putResponse response envelope) = some (r, w')) :
    w' = { w with responses := Function.update w.responses response (some envelope) } := by
  simp only [exec] at hx
  split at hx
  · cases hx
  · cases hx
    rfl

theorem step (h : Tracked ρ w φ ids) (hallows : (φ i).Allows cmd) {r : Ans cmd} (hx : exec i e w cmd = some (r, w')) :
    Tracked ρ w' (Function.update φ i ((φ i).next cmd r)) (ids ++ replyIDs (heard cmd r)) := by
  have hother : cmd.isPhased = false →
      Tracked ρ w' (Function.update φ i ((φ i).next cmd r)) (ids ++ replyIDs (heard cmd r)) := by
    intro hcmd
    have hne : cmd ≠ .clientRecv := by rintro rfl; cases hcmd
    rw [Phase.next_of_not_isPhased hcmd, Function.update_eq_self, heard_of_ne hne]
    exact (List.append_nil ids).symm ▸ h.other hcmd hx
  obtain ⟨settled, hids, hheld⟩ := h.held
  cases hi : φ i with
  | fresh =>
    rw [hi] at hallows
    rcases hallows with hcmd | rfl
    · exact hi ▸ hother hcmd
    · exact (List.append_nil ids).symm ▸ h.nextID hi hx
  | drew id =>
    rw [hi] at hallows
    obtain rfl := hallows
    exact (List.append_nil ids).symm ▸ h.makeResponse hi hx
  | made id response =>
    rw [hi] at hallows
    obtain rfl := hallows
    exact (List.append_nil ids).symm ▸ h.addRequest hi hx
  | registered =>
    rw [hi] at hallows
    exact hi ▸ hother hallows
  | idle =>
    rw [hi] at hallows
    rcases hallows with hcmd | rfl
    · exact hi ▸ hother hcmd
    · have hreader : (φ i).isReader = true := by rw [hi]; rfl
      have hsettled : ids = settled := by
        rw [hids, ← h.reader i hreader, hi]
        exact List.append_nil settled
      cases hx
      cases hr : e.received with
      | error err => exact h.read hreader .idle _ settled rfl rfl (by simp) rfl (by rw [hsettled]; rfl) hheld
      | ok envelope =>
        by_cases hreply : envelope.isReply = true
        · have hnext : Phase.idle.next .clientRecv (.ok envelope) = .reading envelope := if_pos hreply
          rw [hnext]
          refine h.read hreader _ _ settled rfl rfl (by simp) rfl ?_ hheld
          rw [hsettled]
          simp [heard, replyIDs, hreply, Phase.inHand]
        · have hnext : Phase.idle.next .clientRecv (.ok envelope) = .idle := if_neg hreply
          rw [hnext]
          refine h.read hreader _ _ settled rfl rfl (by simp) rfl ?_ hheld
          rw [hsettled]
          simp [heard, replyIDs, hreply, Phase.inHand]
  | reading envelope =>
    rw [hi] at hallows
    obtain rfl := hallows
    have hreader : (φ i).isReader = true := by rw [hi]; rfl
    have hsettled : ids = settled ++ [envelope.requestID] := by
      rw [hids, ← h.reader i hreader, hi]
      rfl
    cases hx
    cases hl : w.requests.lookup envelope.requestID with
    | none =>
      refine h.read hreader .idle _ ids rfl rfl (by simp) rfl rfl fun response envelope' hr => ?_
      rw [hsettled]
      exact (hheld response envelope' hr).imp_right (List.mem_append_left _)
    | some response =>
      refine h.read hreader (.found envelope response) _ settled rfl rfl ?_ rfl ?_ hheld
      · rintro _ _ ⟨⟩
        exact h.requests _ _ hl
      · rw [hsettled]
        exact List.append_nil _
  | found envelope response =>
    rw [hi] at hallows
    obtain rfl := hallows
    have hreader : (φ i).isReader = true := by rw [hi]; rfl
    have hsettled : ids = settled ++ [envelope.requestID] := by
      rw [hids, ← h.reader i hreader, hi]
      rfl
    obtain rfl := putResponse_eq hx
    refine h.read hreader .idle _ ids rfl rfl (by simp) rfl rfl fun response' envelope' hr => ?_
    have hr : Function.update w.responses response (some envelope) response' = some envelope' := hr
    rw [hsettled]
    by_cases hne : response' = response
    · subst hne
      rw [Function.update_self] at hr
      cases hr
      exact ⟨h.found i envelope response' hi, List.mem_append_right _ (List.mem_singleton.mpr rfl)⟩
    · rw [Function.update_of_ne hne] at hr
      exact (hheld response' envelope' hr).imp_right (List.mem_append_left _)

end Tracked

end

/-! ## Runs -/

def OneReader (calls : List Call) : Prop :=
  ∀ (i j : Nat) n m, calls[i]? = some (Call.newClient n) → calls[j]? = some (Call.newClient m) → i = j

def sending (s : State) (i : Nat) : Option (Nat × InternalEnvelope) :=
  match s.procs[i]? with
  | some (.call (.putResponse response envelope) _) => some (response, envelope)
  | _ => none

variable {s : State} {envelope : InternalEnvelope} {P : State → Prop} {got : List InternalEnvelope} {x : UInt64}

theorem sending_eq_some {i response : Nat} (h : sending s i = some (response, envelope)) :
    ∃ k : Unit → Prog Ans Result, s.procs[i]? = some (.call (.putResponse response envelope) k) := by
  unfold sending at h
  split at h
  · rename_i k hp
    cases h
    exact ⟨k, hp⟩
  · cases h

def Stalled (s : State) : Prop :=
  ∃ i response envelope, sending s i = some (response, envelope) ∧ (s.world.responses response).isSome ∧
    (s.answer response).isSome

def firstPhase (calls : List Call) (i : Nat) : Phase := (calls[i]?.map Call.phase).getD .fresh

theorem tracked_init {calls : List Call} {ρ : Nat} (hρ : ∀ i n, calls[i]? = some (Call.newClient n) → i = ρ) :
    Tracked ρ {} (firstPhase calls) [] := by
  have hphase : ∀ i, firstPhase calls i = .fresh ∨ firstPhase calls i = .idle ∧ i = ρ := by
    intro i
    unfold firstPhase
    cases hi : calls[i]? with
    | none => exact .inl rfl
    | some call =>
      cases call with
      | newClient n => exact .inr ⟨rfl, hρ i n hi⟩
      | _ => exact .inl rfl
  refine ⟨by simp, by simp, fun i id h => ?_, fun i id response h => ?_, fun id response h => ?_,
    fun i envelope response h => ?_, fun i h => ?_, [], ?_, by simp⟩
  · rcases hphase i with hi | ⟨hi, -⟩ <;> (rw [hi] at h; cases h)
  · rcases hphase i with hi | ⟨hi, -⟩ <;> (rw [hi] at h; cases h)
  · cases h
  · rcases hphase i with hi | ⟨hi, -⟩ <;> (rw [hi] at h; cases h)
  · rcases hphase i with hi | ⟨-, hi⟩
    · rw [hi] at h; cases h
    · exact hi
  · rcases hphase ρ with hi | ⟨hi, -⟩ <;> (rw [hi]; rfl)

theorem tracked_run (c : Config) {calls : List Call} {ρ : Nat}
    (hρ : ∀ i n, calls[i]? = some (Call.newClient n) → i = ρ) (as : List (Nat × Env)) :
    let j := Pool.journal exec (State.init c calls) as
    let φ := Pool.place Phase.next (firstPhase calls) j
    Tracked ρ (Pool.run exec (State.init c calls) as).world φ (replyIDs (received j)) ∧
      ∀ (i : Nat) (p : Prog Ans Result), (Pool.run exec (State.init c calls) as).procs[i]? = some p → Phased (φ i) p := by
  have hphased : ∀ (i : Nat) (p : Prog Ans Result), (calls.map (Call.handler c))[i]? = some p →
      Phased (firstPhase calls i) p := by
    refine Pool.forall_map fun i call hcall => ?_
    rw [firstPhase, hcall]
    exact phased_handler c call
  refine Pool.inv_journal (J := fun (w : World) j => Tracked ρ w (Pool.place Phase.next (firstPhase calls) j)
    (replyIDs (received j))) hphased (tracked_init hρ) ?_ as
  intro i e w j cmd r w' _ htracked hallows hx
  rw [Pool.place_snoc, received_snoc, replyIDs_append]
  exact htracked.step hallows hx

theorem not_full (c : Config) {calls : List Call} (hone : OneReader calls) {as : List (Nat × Env)}
    (hdistinct : (replyIDs (received (Pool.journal exec (State.init c calls) as))).Nodup) {i response : Nat}
    {k : Unit → Prog Ans Result}
    (hp : (Pool.run exec (State.init c calls) as).procs[i]? = some (Prog.call (.putResponse response envelope) k)) :
    (Pool.run exec (State.init c calls) as).world.responses response = none := by
  have hρ : ∃ ρ, ∀ (i : Nat) n, calls[i]? = some (Call.newClient n) → i = ρ := by
    by_cases hex : ∃ (ρ : Nat) (n : Nat), calls[ρ]? = some (Call.newClient n)
    · obtain ⟨ρ, m, hm⟩ := hex
      exact ⟨ρ, fun i n hn => hone i ρ n m hn hm⟩
    · exact ⟨0, fun i n hn => absurd ⟨i, n, hn⟩ hex⟩
  obtain ⟨ρ, hρ⟩ := hρ
  obtain ⟨htracked, hphased⟩ := tracked_run c hρ as
  -- the reader has looked the channel up for the reply in its hands
  have hfound := (hphased i _ hp).1
  generalize Pool.place Phase.next (firstPhase calls) (Pool.journal exec (State.init c calls) as) = φ at htracked hfound
  cases hi : φ i with
  | found envelope' response' =>
    rw [hi] at hfound
    cases hfound
    obtain ⟨settled, hids, hheld⟩ := htracked.held
    rw [← htracked.reader i (by rw [hi]; rfl), hi] at hids
    by_contra hfull
    obtain ⟨earlier, hearlier⟩ := Option.ne_none_iff_exists'.mp hfull
    obtain ⟨hissued, hsettled⟩ := hheld response earlier hearlier
    have hsame := htracked.drawn response _ _ hissued (htracked.found i envelope response hi)
    rw [hids, List.nodup_append] at hdistinct
    exact hdistinct.2.2 _ hsettled _ (List.mem_singleton.mpr rfl) hsame
  | fresh => rw [hi] at hfound; rcases hfound with h | h <;> cases h
  | idle => rw [hi] at hfound; rcases hfound with h | h <;> cases h
  | registered => rw [hi] at hfound; cases hfound
  | drew _ => rw [hi] at hfound; cases hfound
  | made _ _ => rw [hi] at hfound; cases hfound
  | reading _ => rw [hi] at hfound; cases hfound

/-! ## The second reply -/

def Can (s : State) (got : List InternalEnvelope) (P : State → Prop) : Prop :=
  ∃ as, received (Pool.journal exec s as) = got ∧ P (Pool.run exec s as)

theorem Can.here (h : P s) : Can s [] P := ⟨[], rfl, h⟩

theorem Can.step {i : Nat} {cmd : Cmd} {k : Ans cmd → Prog Ans Result} (e : Env) {r : Ans cmd} {w : World}
    (hp : s.procs[i]? = some (.call cmd k)) (hx : exec i e s.world cmd = some (r, w))
    (h : ∀ t : State, t.world = w → t.procs[i]? = some (k r) → (∀ j, j ≠ i → t.procs[j]? = s.procs[j]?) → Can t got P) :
    Can s (heard cmd r ++ got) P := by
  obtain ⟨hworld, hproc⟩ := Pool.step_of_exec exec hp hx
  obtain ⟨as, hgot, hP⟩ := h (Pool.step exec s (i, e)) hworld hproc fun j hj => Pool.procs_step_of_ne exec (Ne.symm hj)
  have hanswered : Pool.answered exec s (i, e) = some ⟨i, cmd, r⟩ := by simp only [Pool.answered, hp, hx, Option.map_some]
  refine ⟨(i, e) :: as, ?_, hP⟩
  rw [Pool.journal, hanswered, received, Option.toList_some, List.flatMap_append, List.flatMap_singleton, ← hgot]
  rfl

def quiet : Config where
  marshalHello _ := .ok []
  unmarshalHello _ := none
  handlers := ∅
  service := .gateway
  instanceID := "gateway-1"
  onEvent := false

structure Waiting (x : UInt64) (pid : Nat) (s : State) : Prop where
  requests : ∀ id, s.world.requests.lookup id = if id = x then some pid else none
  done : s.world.done = false
  proc : s.procs[pid]? =
    some (.call (.await pid) fun result => .call (.removeRequest x) fun _ => .ret (.response result))

theorem can_draw (n : Nat) (hreq : ∀ j, 0 < j → j ≤ n → s.procs[j]? = some ((Call.request {}).handler quiet))
    (h : ∀ t : State, t.world.nextID = s.world.nextID + UInt64.ofNat n → t.world.requests = s.world.requests →
      t.world.done = s.world.done → t.world.responses = s.world.responses →
      (∀ j, j = 0 ∨ n < j → t.procs[j]? = s.procs[j]?) → Can t got P) : Can s got P := by
  induction n generalizing s with
  | zero => exact h s (by simp) rfl rfl rfl fun _ _ => rfl
  | succ n ih =>
    refine Can.step {} (hreq (n + 1) (Nat.succ_pos n) (Nat.le_refl _)) rfl fun t hworld _ hothers => ?_
    refine ih (fun j hj hjn => (hothers j (by omega)).trans (hreq j hj (by omega))) fun u hid hrequests hdone hresp hprocs => ?_
    refine h u ?_ (hrequests.trans (by rw [hworld])) (hdone.trans (by rw [hworld])) (hresp.trans (by rw [hworld])) ?_
    · rw [hid, hworld, UInt64.ofNat_add]
      change s.world.nextID + 1 + UInt64.ofNat n = s.world.nextID + (UInt64.ofNat n + 1)
      rw [UInt64.add_assoc, UInt64.add_comm 1]
    · intro j hj
      rw [hprocs j (by omega), hothers j (by omega)]

theorem can_register {pid : Nat} (hp : s.procs[pid]? = some ((Call.request {}).handler quiet))
    (hrequests : s.world.requests = ∅) (hdone : s.world.done = false)
    (h : ∀ t : State, Waiting (s.world.nextID + 1) pid t → t.world.responses pid = none →
      (∀ j, j ≠ pid → t.procs[j]? = s.procs[j]?) → Can t got P) : Can s got P := by
  refine Can.step {} hp rfl fun s₁ hw₁ hp₁ ho₁ => ?_
  refine Can.step {} hp₁ rfl fun s₂ hw₂ hp₂ ho₂ => ?_
  refine Can.step {} hp₂ rfl fun s₃ hw₃ hp₃ ho₃ => ?_
  have hdone₃ : s₃.world.done = false := by rw [hw₃, hw₂, hw₁]; exact hdone
  refine Can.step {} hp₃ rfl fun s₄ hw₄ hp₄ ho₄ => ?_
  rw [hdone₃] at hp₄
  refine Can.step {} hp₄ rfl fun s₅ hw₅ hp₅ ho₅ => ?_
  refine h s₅ ⟨fun id => ?_, ?_, hp₅⟩ ?_ fun j hj => ?_
  · rw [hw₅, hw₄, hw₃, hw₂, hw₁]
    change (s.world.requests.insert (s.world.nextID + 1) pid).lookup id = _
    rw [hrequests]
    by_cases hid : id = s.world.nextID + 1
    · rw [hid, AList.lookup_insert, if_pos rfl]
    · rw [AList.lookup_insert_ne hid, if_neg hid, AList.lookup_empty]
  · rw [hw₅, hw₄]; exact hdone₃
  · rw [hw₅, hw₄, hw₃, hw₂, hw₁]
    exact Function.update_self ..
  · rw [ho₅ j hj, ho₄ j hj, ho₃ j hj, ho₂ j hj, ho₁ j hj]

def reading (p : Prog Ans Unit) (n : Nat) : Prog Ans Result :=
  ((p >>= fun _ => Client.readLoop quiet n) >>= fun _ => (return none : Prog Ans (Option GoErr))) >>= fun r => return .err r

theorem receive_reply (h : envelope.isReply = true) :
    Client.receive quiet envelope = .call (.request envelope.requestID) fun r =>
      (r.elim (.ret ()) fun response => .call (.putResponse response envelope) fun _ => .ret ()) := by
  have hkind : envelope.kind = .response ∨ envelope.kind = .error := of_decide_eq_true h
  rw [Client.receive, if_pos hkind]
  refine congrArg (Prog.call _) (funext fun r => ?_)
  cases r <;> rfl

theorem receive_other (h : envelope.isReply = false) :
    Client.receive quiet envelope = .ret () := by
  have hkind : ¬ (envelope.kind = .response ∨ envelope.kind = .error) := of_decide_eq_false h
  rw [Client.receive, if_neg hkind]
  exact if_neg fun h => by cases h.2

theorem can_receive {n : Nat} (envelope : InternalEnvelope) (hp : s.procs[0]? = some (reading (.ret ()) (n + 1)))
    (h : ∀ t : State, t.world = s.world → t.procs[0]? = some (reading (Client.receive quiet envelope) n) →
      (∀ j, j ≠ 0 → t.procs[j]? = s.procs[j]?) → Can t got P) : Can s (envelope :: got) P :=
  Can.step { received := .ok envelope } hp rfl h

theorem Waiting.of_same {pid : Nat} {t : State} (h : Waiting x pid s)
    (hrequests : t.world.requests = s.world.requests) (hdone : t.world.done = s.world.done)
    (hproc : t.procs[pid]? = s.procs[pid]?) : Waiting x pid t :=
  ⟨hrequests ▸ h.requests, hdone.trans h.done, hproc.trans h.proc⟩

theorem can_lookup {n : Nat} {pid : Nat} (hpid : pid ≠ 0) (hreply : envelope.isReply = true) (hw : Waiting x pid s)
    (hp : s.procs[0]? = some (reading (.ret ()) (n + 1)))
    (h : ∀ t : State, Waiting x pid t → t.world.responses = s.world.responses →
      t.procs[0]? = some (if envelope.requestID = x then .call (.putResponse pid envelope) fun _ => reading (.ret ()) n
        else reading (.ret ()) n) → Can t got P) : Can s (envelope :: got) P := by
  refine can_receive envelope hp fun t hworld hp₁ ho₁ => ?_
  have hw₁ : Waiting x pid t := hw.of_same (by rw [hworld]) (by rw [hworld]) (ho₁ pid hpid)
  rw [receive_reply hreply] at hp₁
  refine Can.step {} hp₁ rfl fun u hworld' hp₂ ho₂ => ?_
  rw [hw₁.requests] at hp₂
  refine h u (hw₁.of_same (by rw [hworld']) (by rw [hworld']) (ho₂ pid hpid)) (by rw [hworld', hworld]) (hp₂.trans ?_)
  split <;> rfl

theorem can_find {n : Nat} {pid : Nat} (hpid : pid ≠ 0) (hreply : envelope.isReply = true)
    (hx : envelope.requestID = x) (hw : Waiting x pid s) (hp : s.procs[0]? = some (reading (.ret ()) (n + 1)))
    (h : ∀ t : State, Waiting x pid t → t.world.responses = s.world.responses →
      t.procs[0]? = some (.call (.putResponse pid envelope) fun _ => reading (.ret ()) n) → Can t got P) :
    Can s (envelope :: got) P :=
  can_lookup hpid hreply hw hp fun t hw hsame hp => h t hw hsame (hp.trans (by rw [if_pos hx]))

theorem can_pass {n : Nat} {pid : Nat} (hpid : pid ≠ 0) (hother : envelope.isReply = true → envelope.requestID ≠ x)
    (hw : Waiting x pid s) (hp : s.procs[0]? = some (reading (.ret ()) (n + 1)))
    (h : ∀ t : State, Waiting x pid t → t.world.responses = s.world.responses →
      t.procs[0]? = some (reading (.ret ()) n) → Can t got P) : Can s (envelope :: got) P := by
  by_cases hreply : envelope.isReply = true
  · exact can_lookup hpid hreply hw hp fun t hw hsame hp => h t hw hsame (hp.trans (by rw [if_neg (hother hreply)]))
  · refine can_receive envelope hp fun t hworld hp₁ ho₁ => ?_
    rw [receive_other (Bool.not_eq_true _ ▸ hreply)] at hp₁
    exact h t (hw.of_same (by rw [hworld]) (by rw [hworld]) (ho₁ pid hpid)) (by rw [hworld]) hp₁

theorem can_pass_all {pid : Nat} (hpid : pid ≠ 0) {envelopes : List InternalEnvelope}
    (hother : ∀ envelope ∈ envelopes, envelope.isReply = true → envelope.requestID ≠ x) {n : Nat}
    (hw : Waiting x pid s) (hp : s.procs[0]? = some (reading (.ret ()) (envelopes.length + n)))
    (h : ∀ t : State, Waiting x pid t → t.world.responses = s.world.responses →
      t.procs[0]? = some (reading (.ret ()) n) → Can t got P) : Can s (envelopes ++ got) P := by
  induction envelopes generalizing s with
  | nil => exact h s hw rfl (by simpa using hp)
  | cons envelope envelopes ih =>
    obtain ⟨hfirst, hrest⟩ := List.forall_mem_cons.mp hother
    rw [List.length_cons, Nat.add_right_comm] at hp
    refine can_pass hpid hfirst hw hp fun t hw₁ hresp hp₁ => ?_
    exact ih hrest hw₁ hp₁ fun u hu hresp' => h u hu (hresp'.trans hresp)

theorem exists_twice {envelopes : List InternalEnvelope} (h : ¬ (replyIDs envelopes).Nodup) :
    ∃ before a between b after x, envelopes = before ++ a :: (between ++ b :: after) ∧
      (a.isReply = true ∧ a.requestID = x) ∧ (b.isReply = true ∧ b.requestID = x) ∧
      ∀ envelope, envelope ∈ before ∨ envelope ∈ between → envelope.isReply = true → envelope.requestID ≠ x := by
  have hmem : ∀ {l : List InternalEnvelope} {x : UInt64}, x ∈ replyIDs l ↔ ∃ b ∈ l, b.isReply = true ∧ b.requestID = x := by
    intro l x
    simp [replyIDs, and_assoc]
  induction envelopes with
  | nil => exact absurd List.nodup_nil h
  | cons e l ih =>
    by_cases hfirst : e.isReply = true ∧ e.requestID ∈ replyIDs l
    · -- the first one is answered again, by the next reply with its id
      obtain ⟨hreply, hin⟩ := hfirst
      obtain ⟨b₀, hb₀, hb₀reply, hb₀id⟩ := hmem.mp hin
      have hsome : (l.find? fun b => b.isReply && b.requestID == e.requestID).isSome :=
        List.find?_isSome.mpr ⟨b₀, hb₀, by simp [hb₀reply, hb₀id]⟩
      obtain ⟨b, hb⟩ := Option.isSome_iff_exists.mp hsome
      obtain ⟨hpb, between, after, rfl, hbetween⟩ := List.find?_eq_some_iff_append.mp hb
      have hpb : b.isReply = true ∧ b.requestID = e.requestID := by simpa using hpb
      refine ⟨[], e, between, b, after, e.requestID, rfl, ⟨hreply, rfl⟩, hpb, fun envelope hin hr => ?_⟩
      have hnot := hbetween envelope (hin.resolve_left List.not_mem_nil)
      simpa [hr] using hnot
    · have hrest : ¬ (replyIDs l).Nodup := by
        intro hnodup
        refine h ?_
        by_cases hreply : e.isReply = true
        · rw [replyIDs, List.filter_cons_of_pos hreply, List.map_cons, List.nodup_cons]
          exact ⟨fun hin => hfirst ⟨hreply, hin⟩, hnodup⟩
        · rw [replyIDs, List.filter_cons_of_neg hreply]
          exact hnodup
      obtain ⟨before, a, between, b, after, x, rfl, ha, hb, hother⟩ := ih hrest
      refine ⟨e :: before, a, between, b, after, x, rfl, ha, hb, fun envelope hin hr heq => ?_⟩
      rcases hin with hin | hin
      · rcases List.mem_cons.mp hin with rfl | hin
        · exact hfirst ⟨hr, hmem.mpr ⟨a, by simp, ha.1, ha.2.trans heq.symm⟩⟩
        · exact hother envelope (.inl hin) hr heq
      · exact hother envelope (.inr hin) hr heq

theorem exists_ofNat_succ (x : UInt64) : ∃ m : Nat, UInt64.ofNat m + 1 = x :=
  ⟨(x - 1).toNat, by rw [UInt64.ofNat_toNat, UInt64.sub_add_cancel]⟩

theorem can_hello {n : Nat} {pid : Nat} (hpid : pid ≠ 0) (hw : Waiting x pid s)
    (hp : s.procs[0]? = some ((Call.newClient n).handler quiet))
    (h : ∀ t : State, Waiting x pid t → t.world.responses = s.world.responses →
      t.procs[0]? = some (reading (.ret ()) n) → Can t got P) : Can s got P := by
  refine Can.step {} hp rfl fun s₁ hw₁ hp₁ ho₁ => ?_
  rw [hw.done] at hp₁
  refine Can.step {} hp₁ rfl fun s₂ hw₂ hp₂ ho₂ => ?_
  refine h s₂ (hw.of_same ?_ ?_ ?_) ?_ hp₂
  · rw [hw₂, hw₁]
  · rw [hw₂, hw₁]
  · rw [ho₂ pid hpid, ho₁ pid hpid]
  · rw [hw₂, hw₁]

theorem can_stall_of_waiting {pid : Nat} (hpid : pid ≠ 0) (hw : Waiting x pid s)
    (hempty : s.world.responses pid = none) {before between : List InternalEnvelope} {a b : InternalEnvelope}
    (ha : a.isReply = true ∧ a.requestID = x) (hb : b.isReply = true ∧ b.requestID = x)
    (hother : ∀ envelope, envelope ∈ before ∨ envelope ∈ between → envelope.isReply = true → envelope.requestID ≠ x)
    (hp : s.procs[0]? = some (reading (.ret ()) (before.length + (between.length + 1 + 1)))) :
    Can s (before ++ a :: (between ++ [b])) Stalled := by
  refine can_pass_all hpid (fun envelope hin => hother envelope (.inl hin)) hw hp fun s₁ hw₁ hr₁ hp₁ => ?_
  refine can_find hpid ha.1 ha.2 hw₁ hp₁ fun s₂ hw₂ hr₂ hp₂ => ?_
  have hput : exec 0 {} s₂.world (.putResponse pid a) =
      some ((), { s₂.world with responses := Function.update s₂.world.responses pid (some a) }) := by
    simp only [exec, hr₂, hr₁, hempty]
  refine Can.step {} hp₂ hput fun s₃ hworld₃ hp₃ ho₃ => ?_
  have hw₃ : Waiting x pid s₃ := hw₂.of_same (by rw [hworld₃]) (by rw [hworld₃]) (ho₃ pid hpid)
  have hfull : s₃.world.responses pid = some a := by rw [hworld₃]; exact Function.update_self ..
  refine can_pass_all hpid (fun envelope hin => hother envelope (.inr hin)) hw₃ hp₃ fun s₄ hw₄ hr₄ hp₄ => ?_
  refine can_find hpid hb.1 hb.2 hw₄ hp₄ fun s₅ hw₅ hr₅ hp₅ => ?_
  refine Can.step { select := .contextDone } hw₅.proc rfl fun s₆ hworld₆ hp₆ ho₆ => ?_
  refine Can.step {} hp₆ rfl fun s₇ hworld₇ hp₇ ho₇ => Can.here ?_
  refine ⟨0, pid, b, ?_, ?_, ?_⟩
  · rw [sending, ho₇ 0 (Ne.symm hpid), ho₆ 0 (Ne.symm hpid), hp₅]
  · have hsame : s₇.world.responses = s₃.world.responses := by rw [hworld₇, hworld₆]; exact hr₅.trans hr₄
    rw [hsame, hfull]
    rfl
  · rw [Pool.answer, hp₇]
    rfl

theorem can_stall {envelopes : List InternalEnvelope} (h : ¬ (replyIDs envelopes).Nodup) :
    ∃ calls got, OneReader calls ∧ got <+: envelopes ∧ Can (State.init quiet calls) got Stalled := by
  obtain ⟨before, a, between, b, after, x, rfl, ha, hb, hother⟩ := exists_twice h
  obtain ⟨m, hm⟩ := exists_ofNat_succ x
  -- as many calls of `Request` as it takes for the last one to draw the id
  refine ⟨.newClient (before.length + (between.length + 1 + 1)) :: List.replicate (m + 1) (.request {}),
    before ++ a :: (between ++ [b]), ?_, ⟨after, by simp⟩, ?_⟩
  · intro i j n n' hi hj
    have hzero : ∀ (i n : Nat), (Call.newClient (before.length + (between.length + 1 + 1)) ::
        List.replicate (m + 1) (Call.request {}))[i]? = some (.newClient n) → i = 0 := by
      intro i n hi
      cases i with
      | zero => rfl
      | succ i =>
        rw [List.getElem?_cons_succ, List.getElem?_replicate] at hi
        split at hi <;> cases hi
    rw [hzero i n hi, hzero j n' hj]
  · have hreq : ∀ j, 0 < j → j ≤ m + 1 → (State.init quiet (.newClient (before.length + (between.length + 1 + 1)) ::
        List.replicate (m + 1) (.request {}))).procs[j]? = some ((Call.request {}).handler quiet) := by
      intro j hj hjm
      obtain ⟨j, rfl⟩ := Nat.exists_eq_succ_of_ne_zero hj.ne'
      simp only [State.init, Pool.start, List.map_cons, List.map_replicate]
      rw [List.getElem?_cons_succ, List.getElem?_replicate, if_pos (by omega)]
    refine can_draw m (fun j hj hjm => hreq j hj (by omega)) fun s₁ hid hrequests hdone hresp hprocs => ?_
    refine can_register ((hprocs (m + 1) (.inr (Nat.lt_succ_self m))).trans (hreq (m + 1) (Nat.succ_pos m) (Nat.le_refl _)))
      hrequests hdone fun s₂ hw₂ hempty ho₂ => ?_
    have hx : s₁.world.nextID + 1 = x := by
      rw [hid, ← hm]
      exact congrArg (· + 1) (UInt64.zero_add _)
    rw [hx] at hw₂
    have hp₂ := (ho₂ 0 (Nat.succ_ne_zero m).symm).trans (hprocs 0 (.inl rfl))
    refine can_hello (Nat.succ_ne_zero m) hw₂ hp₂ fun s₃ hw₃ hr₃ hp₃ => ?_
    exact can_stall_of_waiting (Nat.succ_ne_zero m) hw₃ ((congrFun hr₃ _).trans hempty) ha hb hother hp₃

/-- Whatever the calls of `Request` and their interleaving with `readLoop`, the
reader does not wait for good on the channel of a `Request` that has returned,
exactly if no two replies the peer sends have the same id. -/
theorem reader_stalls_iff (envelopes : List InternalEnvelope) :
    (∀ c calls as, OneReader calls → received (Pool.journal exec (State.init c calls) as) <+: envelopes →
      ¬ Stalled (Pool.run exec (State.init c calls) as)) ↔ (replyIDs envelopes).Nodup := by
  constructor
  · intro hnever
    by_contra hdup
    obtain ⟨calls, got, hone, hinit, as, hgot, hstalled⟩ := can_stall hdup
    exact hnever quiet calls as hone (hgot ▸ hinit) hstalled
  · rintro hnodup c calls as hone hinit ⟨i, response, envelope, hsending, hfull, -⟩
    obtain ⟨k, hp⟩ := sending_eq_some hsending
    have hsub : (replyIDs (received (Pool.journal exec (State.init c calls) as))).Sublist (replyIDs envelopes) :=
      (hinit.sublist.filter _).map _
    rw [not_full c hone (hnodup.sublist hsub) hp] at hfull
    cases hfull

theorem second_reply_stalls_reader :
    let reply : InternalEnvelope := { kind := .response, requestID := 1 }
    let calls := [Call.newClient 2, .request {}]
    let schedule : List (Nat × Env) := [(0, {}), (0, {}), (1, {}), (1, {}), (1, {}), (1, {}), (1, {}),
      (0, { received := .ok reply }), (0, {}), (0, {}), (0, { received := .ok reply }), (0, {}),
      (1, { select := .contextDone }), (1, {})]
    OneReader calls ∧ received (Pool.journal exec (State.init quiet calls) schedule) = [reply, reply] ∧
      Stalled (Pool.run exec (State.init quiet calls) schedule) := by
  intro reply calls schedule
  have hone : OneReader calls := by
    have hzero : ∀ (i n : Nat), calls[i]? = some (Call.newClient n) → i = 0 := by
      intro i n hi
      rcases i with _ | _ | i
      · rfl
      · cases hi
      · cases hi
    exact fun i j n m hi hj => (hzero i n hi).trans (hzero j m hj).symm
  have hrun : received (Pool.journal exec (State.init quiet calls) schedule) = [reply, reply] ∧
      sending (Pool.run exec (State.init quiet calls) schedule) 0 = some (1, reply) ∧
      ((Pool.run exec (State.init quiet calls) schedule).world.responses 1).isSome ∧
      ((Pool.run exec (State.init quiet calls) schedule).answer 1).isSome := by decide +kernel
  exact ⟨hone, hrun.1, 0, 1, reply, hrun.2⟩

end GameServer.Streaming
