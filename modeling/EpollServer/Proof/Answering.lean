import EpollServer.EchoServer
import EpollServer.Proof.Writing

/-!
# The echo server's answers

`EchoServer::onMessage` answers every message while the connection is open, by `Send2`, which only buffers.
So the messages sent are the messages seen, up to those that came after the close, and only
`WriteNonBlocking` writes.
-/

namespace EpollServer

open Framing

namespace Op

/-- The operations of the two ways to send that write at once. -/
def isDirect : Op → Bool
  | .call (.send _ _) | .call (.sendWithTwoSysCall _) | .sendInternal _ => true
  | _ => false

variable {c c' : Connection} {op : Op} {label : Label} {ops : List Op}

theorem Exec.starts_eq (h : Exec c op label c' ops) (hlabel : ∀ calls, label ≠ .onMessage calls) :
    ops.flatMap History.starts = [] := by
  cases h with
  | @read r =>
      rcases c.readNonBlocking_ops r with heq | heq | heq <;> rw [heq] <;> rfl
  | message => exact absurd rfl (hlabel _)
  | close => split <;> rfl
  | _ => rfl

theorem Exec.isDirect_eq (h : Exec c op label c' ops) (hlabel : ∀ calls, label ≠ .onMessage calls)
    (hop : op.isDirect = false) : ∀ a ∈ ops, a.isDirect = false := by
  cases h with
  | @read r =>
      rcases c.readNonBlocking_ops r with heq | heq | heq <;> rw [heq] <;> simp [isDirect]
  | message => exact absurd rfl (hlabel _)
  | close => split <;> simp [isDirect]
  | sendWithTwoSysCall => cases hop
  | _ => simp [isDirect]

/-- Whatever writes is `WriteNonBlocking` or writes at once. -/
theorem Exec.writer (h : Exec c op label c' ops) (hhard : label.isHard = true)
    (hop : op.isDirect = false) : op = .handleWrite := by
  cases h with
  | writeFailed hwrites | writeAll hwrites | writePart hwrites =>
      cases op with
      | call f =>
          cases f with
          | send => cases hop
          | send2 | sendWithTwoSysCall | handleClose => exact hwrites.elim
      | sendInternal => cases hop
      | _ => exact hwrites.elim
  | flush | flushRetry | flushFailed => rfl
  | _ => cases hhard

end Op

namespace Session

variable {s s' : Session} {label : Label}

/-- The message callback is the echo server's, and no one else uses the connection. -/
def Echoes (s : Session) : Label → Prop
  | .onMessage calls => calls = EchoServer.onMessage s.conn
  | .call _ => False
  | _ => True

instance (s : Session) (label : Label) : Decidable (s.Echoes label) := by
  unfold Echoes
  split <;> infer_instance

/-- The answers of an echo server's connection. -/
structure Answering (s : Session) : Prop where
  answered : s.conn.state = .connected →
    s.history.sent ++ s.stack.flatMap History.starts = s.history.seen
  inOrder : s.history.sent ++ s.stack.flatMap History.starts <+: s.history.seen
  buffered : ∀ op ∈ s.stack, op.isDirect = false

theorem Fresh.answering (hs : s.Fresh) : s.Answering := by
  refine ⟨fun _ => ?_, ?_, ?_⟩
  · rw [hs.stack, hs.history]
    rfl
  · rw [hs.stack, hs.history]
    exact List.prefix_rfl
  · rw [hs.stack]
    exact fun op h => absurd h List.not_mem_nil

theorem Answering.keeps (hs : s.Answering) (h : s.step label = some s') : s.Keeps label := by
  intro hhard
  rcases step_cases h with ⟨-, events, rfl, -⟩ | ⟨-, f, rfl, -⟩ | ⟨op, rest, conn, ops, hstack, hexec, -⟩
  · cases hhard
  · cases hhard
  · have hop := hs.buffered op (by rw [hstack]; exact List.mem_cons_self)
    rw [hstack, (Op.exec_cases hexec).writer hhard hop]
    rfl

theorem starts_handleEvent (s : Session) (events : EpollEvents) :
    (s.handleEvent events).stack.flatMap History.starts = [] :=
  List.flatMap_eq_nil_iff.mpr fun op hop => by rcases mem_handleEvent hop with rfl | rfl <;> rfl

theorem Answering.handleEvent (hs : s.Answering) (hstack : s.stack = []) (events : EpollEvents) :
    (s.handleEvent events).Answering := by
  have hstarts := starts_handleEvent s events
  have hanswered := hs.answered
  have hinOrder := hs.inOrder
  rw [hstack] at hanswered hinOrder
  refine ⟨fun hstate => ?_, ?_, fun op hop => ?_⟩
  · rw [hstarts]
    exact hanswered hstate
  · rw [hstarts]
    exact hinOrder
  · rcases mem_handleEvent hop with rfl | rfl <;> rfl

/-- A step that is not a callback starts to send what was to be sent, and shows no message. -/
theorem starts_run {op : Op} {rest ops : List Op} {conn : Connection} (hstack : s.stack = op :: rest)
    (hexec : op.Exec s.conn label conn ops) (hlabel : ∀ calls, label ≠ .onMessage calls) :
    (s.history.record s.conn op label).sent ++ (ops ++ rest).flatMap History.starts
        = s.history.sent ++ s.stack.flatMap History.starts ∧
      (s.history.record s.conn op label).seen = s.history.seen := by
  refine ⟨?_, ?_⟩
  · rw [hstack, sent_record, List.flatMap_append, hexec.starts_eq hlabel, List.flatMap_cons, List.nil_append,
      List.append_assoc]
  · cases label with
    | onMessage calls => exact absurd rfl (hlabel calls)
    | _ => rfl

theorem Answering.message (hs : s.Answering) (hstacked : s.Stacked) {rest : List Op}
    (hstack : s.stack = .messageReady :: rest) : Answering { s with
      stack := (EchoServer.onMessage s.conn).map .call ++ [.messageDone] ++ rest
      history := s.history.record s.conn .messageReady (.onMessage (EchoServer.onMessage s.conn)) } := by
  rw [Stacked, hstack, List.pairwise_cons] at hstacked
  have hrest : rest.flatMap History.starts = [] :=
    List.flatMap_eq_nil_iff.mpr fun a ha => by
      cases a with
      | call => exact absurd (hstacked.1 _ ha) (by simp [Op.Above, Op.isWriter])
      | _ => rfl
  have hdirect : ∀ op ∈ rest, op.isDirect = false := fun op hop =>
    hs.buffered op (by rw [hstack]; exact List.mem_cons_of_mem _ hop)
  have hanswered := hs.answered
  have hinOrder := hs.inOrder
  simp only [hstack, List.flatMap_cons, hrest, History.starts, List.append_nil] at hanswered hinOrder
  by_cases hstate : s.conn.state = .connected
  · have hsent := hanswered hstate
    refine ⟨fun _ => ?_, ?_, ?_⟩
    · simp [EchoServer.onMessage, History.record, History.starts, hstate, hrest, hsent]
    · simp [EchoServer.onMessage, History.record, History.starts, hstate, hrest, hsent]
    · simpa [EchoServer.onMessage, hstate, Op.isDirect] using hdirect
  · refine ⟨fun h => absurd h hstate, ?_, ?_⟩
    · simpa [EchoServer.onMessage, History.record, History.starts, hstate, hrest] using
        hinOrder.trans (List.prefix_append _ _)
    · simpa [EchoServer.onMessage, hstate, Op.isDirect] using hdirect

theorem Answering.step (hs : s.Answering) (hstacked : s.Stacked) (hecho : s.Echoes label)
    (h : s.step label = some s') : s'.Answering := by
  rcases step_cases h with ⟨hstack, events, -, rfl⟩ | ⟨-, f, rfl, -⟩ |
    ⟨op, rest, conn, ops, hstack, hexec, rfl⟩
  · exact hs.handleEvent hstack events
  · exact hecho.elim
  · have hexec := Op.exec_cases hexec
    by_cases hlabel : ∃ calls, label = .onMessage calls
    · obtain ⟨calls, rfl⟩ := hlabel
      cases hexec with
      | message =>
          obtain rfl : calls = EchoServer.onMessage s.conn := hecho
          exact hs.message hstacked hstack
    · obtain ⟨hstarts, hseen⟩ := starts_run hstack hexec (not_exists.mp hlabel)
      refine ⟨fun hstate => ?_, ?_, fun a ha => ?_⟩
      · exact hstarts.trans ((hs.answered (hexec.connected hstate)).trans hseen.symm)
      · rw [hstarts, hseen]
        exact hs.inOrder
      · have hop := hs.buffered op (by rw [hstack]; exact List.mem_cons_self)
        rcases List.mem_append.mp ha with ha | ha
        · exact hexec.isDirect_eq (not_exists.mp hlabel) hop a ha
        · exact hs.buffered a (by rw [hstack]; exact List.mem_cons_of_mem op ha)

/-- What holds of an echo server's session, whatever becomes of its channel. -/
structure Serving (s : Session) : Prop where
  stacked : s.Stacked
  reading : s.Reading
  sending : s.Sending
  answering : s.Answering

theorem Fresh.serving (hs : s.Fresh) : s.Serving where
  stacked := hs.built.stacked
  reading := hs.reading
  sending := hs.sending
  answering := hs.answering

theorem Serving.setChannel (hs : s.Serving) (channel : Channel) :
    Serving { s with conn := { s.conn with channel := channel } } where
  stacked := hs.stacked
  reading := hs.reading
  sending := ⟨hs.sending.ok, hs.sending.stream⟩
  answering := ⟨hs.answering.answered, hs.answering.inOrder, hs.answering.buffered⟩

theorem Answering.sent_of_consumed (hs : s.Answering) (hreading : s.Reading) :
    s.history.sent <+: bodies tlv s.history.consumed :=
  (List.prefix_append _ _).trans (hs.inOrder.trans hreading.seen_of_consumed)

theorem Serving.step (hs : s.Serving) (hecho : s.Echoes label) (h : s.step label = some s') :
    s'.Serving := by
  have hreading := hs.reading.step hs.stacked h
  have hanswering := hs.answering.step hs.stacked hecho h
  refine ⟨hs.stacked.step h, hreading, ?_, hanswering⟩
  refine hs.sending.step hs.stacked (hs.answering.keeps h) (fun msg hmsg => ofSize_of_short ?_) h
  exact length_le_of_mem_bodies ((hanswering.sent_of_consumed hreading).subset hmsg)

/-- **The output of an echo server's connection comes from its input.** The bytes that the kernel took are,
in order, frames with the bodies of the frames that were read, up to some byte. -/
theorem Serving.output_of_input (hs : s.Serving) :
    s.history.wire <+: (bodies tlv s.history.consumed).flatMap frameBytes := by
  have hstream := hs.sending.stream
  rw [List.append_assoc] at hstream
  have hwire : s.history.wire <+: s.history.sent.flatMap frameBytes := ⟨_, hstream⟩
  exact hwire.trans ((hs.answering.sent_of_consumed hs.reading).flatMap frameBytes)

end Session

end EpollServer
