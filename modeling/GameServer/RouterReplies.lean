import GameServer.SessionLifecycle

/-!
# Which requests the router answers

`Router.Handle` sends one envelope for a request or ends the stream with an error,
unless the message handler returns neither a message nor an error. The consumer of
lifecycle events is such a handler.
-/

namespace GameServer.Streaming

open Prog

def anyAnswer (_ : Nat) (e : (c : Cmd) → Ans c) (w : Unit) (c : Cmd) : Option (Ans c × Unit) := some (e c, w)

abbrev Log := List ((c : Cmd) × Ans c)

/-- What a command has put into a stream: a failed send puts in nothing. -/
def sent? : ((c : Cmd) × Ans c) → Option (Nat × InternalEnvelope)
  | ⟨.streamSend connection envelope, none⟩ => some (connection, envelope)
  | _ => none

def Log.sent (log : Log) : List (Nat × InternalEnvelope) := log.filterMap sent?

def Answered (peer : Peer) (envelope : InternalEnvelope) (log : Log) (err : Option GoErr) : Prop :=
  err = none ∧ ∃ reply, log.sent = [(peer.connection, reply)] ∧ (reply.kind = .response ∨ reply.kind = .error) ∧
    reply.requestID = envelope.requestID

def Ended (log : Log) (err : Option GoErr) : Prop := err.isSome = true ∧ log.sent = []

def Outcome.silent : Outcome → Bool
  | .error _ => false
  | .ok none => true
  | .ok (some result) => result.message.isNone

def silent? : ((c : Cmd) × Ans c) → Bool
  | ⟨.handleMessage _ _ _, outcome⟩ => outcome.silent
  | _ => false

def Log.silent (log : Log) : Bool := log.any silent?

variable {c : Config} {peer : Peer} {envelope reply : InternalEnvelope} {log : Log}

theorem sent_snoc (log : Log) (x : (c : Cmd) × Ans c) : Log.sent (log ++ [x]) = log.sent ++ (sent? x).toList := by
  unfold Log.sent
  rw [List.filterMap_append]
  cases hx : sent? x <;> simp [hx]

theorem silent_snoc (log : Log) (x : (c : Cmd) × Ans c) : Log.silent (log ++ [x]) = (log.silent || silent? x) := by
  simp [Log.silent]

def Replies (peer : Peer) (envelope : InternalEnvelope) (log : Log) (_ : Unit) (err : Option GoErr) : Prop :=
  (Answered peer envelope log err ∨ Ended log err) ↔ log.silent = false

theorem replies_of_silent (hsent : log.sent = []) (hsilent : log.silent = true) : Replies peer envelope log () none := by
  refine iff_of_false ?_ fun h => Bool.false_ne_true (h.symm.trans hsilent)
  rintro (⟨-, reply, hreply, -⟩ | ⟨herr, -⟩)
  · rw [hsent] at hreply
    exact List.cons_ne_nil _ _ hreply.symm
  · exact Bool.false_ne_true herr

theorem ends_send (hsent : log.sent = []) (hsilent : log.silent = false)
    (hkind : reply.kind = .response ∨ reply.kind = .error) (hid : reply.requestID = envelope.requestID) :
    (peer.send reply).Ends anyAnswer 0 (Replies peer envelope) log () := by
  intro e closed w hclosed
  have hsent₁ : Log.sent (log ++ [⟨.connectionDone peer.connection, closed⟩]) = [] := by
    rw [sent_snoc, hsent]
    rfl
  have hsilent₁ : Log.silent (log ++ [⟨.connectionDone peer.connection, closed⟩]) = false := by
    rw [silent_snoc, hsilent]
    rfl
  cases closed with
  -- the closed connection is reported and nothing is sent
  | true => exact iff_of_true (.inr ⟨rfl, hsent₁⟩) hsilent₁
  | false =>
    intro e failure w hfailure
    refine iff_of_true ?_ (by rw [silent_snoc, hsilent₁]; rfl)
    cases failure with
    | none => exact .inl ⟨rfl, reply, by rw [sent_snoc, hsent₁]; rfl, hkind, hid⟩
    | some err => exact .inr ⟨rfl, by rw [sent_snoc, hsent₁]; rfl⟩

theorem ends_dispatch (peer : Peer) (envelope : InternalEnvelope) :
    (Router.dispatch c peer envelope true).Ends anyAnswer 0 (Replies peer envelope) [] () := by
  unfold Router.dispatch
  cases c.handlers.lookup (envelope.targetService, envelope.messageID) with
  | none => exact ends_send rfl rfl (.inr rfl) rfl
  | some handler =>
    intro e outcome w houtcome
    cases outcome with
    | error err => exact ends_send rfl rfl (.inr rfl) rfl
    | ok result =>
      cases result with
      | none => exact replies_of_silent rfl rfl
      | some result =>
        obtain ⟨messageID, message⟩ := result
        cases message with
        | none => exact replies_of_silent rfl rfl
        | some payload =>
          cases payload with
          | error err => exact iff_of_true (.inr ⟨rfl, rfl⟩) rfl
          | ok payload => exact ends_send rfl rfl (.inl rfl) rfl

/-- Every request is answered once or ends the stream, exactly if the message
handler is not silent; an event is never answered. -/
theorem handle_replies_iff (c : Config) (peer : Peer) (envelope : InternalEnvelope) :
    (envelope.kind = .request → (Router.handle c peer envelope).Ends anyAnswer 0 (Replies peer envelope) [] ()) ∧
      (envelope.kind = .event → (Router.handle c peer envelope).Ends anyAnswer 0 (fun log _ _ => Log.sent log = []) [] ()) := by
  unfold Router.handle
  constructor
  · intro hkind
    rw [hkind, if_neg (by decide), if_neg (by decide)]
    exact ends_dispatch peer envelope
  · intro hkind
    rw [if_pos hkind, Router.dispatch]
    cases c.handlers.lookup (envelope.targetService, envelope.messageID) with
    | none => rfl
    | some handler =>
      intro e outcome w houtcome
      cases outcome with
      | error err => rfl
      | ok result => cases result <;> rfl

/-! ## The consumer of lifecycle events -/

open SessionLifecycle

def sessionLifecycleEventID : UInt32 := 2201

def registerConsumer (handlers : Handlers) (target : ServiceType) (consumer : Nat) : Handlers :=
  handlers.register target sessionLifecycleEventID consumer

theorem lifecycle_request_unanswered :
    let unmarshal : Bytes → Except GoErr SessionLifecycleEvent := fun _ => .ok ⟨"session-1:2:resumed", "session-1", 2⟩
    let c : Config :=
      { marshalHello := fun _ => .ok [], unmarshalHello := fun _ => none, service := .lobby, instanceID := "lobby-1"
        onEvent := false, handlers := registerConsumer ∅ .lobby 0 }
    let envelope : InternalEnvelope :=
      { kind := .request, requestID := 7, targetService := .lobby, messageID := sessionLifecycleEventID }
    let outcome := (newSessionLifecycleConsumer.handle unmarshal envelope).1
    let s := Pool.run exec (Pool.start {} [Router.handle c ⟨.gateway, "gateway-1", 0⟩ envelope]) [(0, { outcome })]
    s.answer 0 = some none ∧ s.world.replied = [] ∧ s.world.closed 0 = false ∧
      s.world.handled.map (·.envelope.requestID) = [7] := by
  decide

end GameServer.Streaming
