import EpollServer.Proof.Echo

/-!
# An echo server's connection comes to rest

Every step of an echo server's connection is paid for by what arrives: a byte pays for being read and for being
written back, a message for its callback and for the registration behind it. Only calls that the kernel
interrupts or that write nothing bring new debt in. So without them no event makes the handlers spin, and
the connection comes to rest with every answer written.
-/

namespace EpollServer

open Framing

/-- The steps that an operation still costs, apart from the bytes and the messages that it deals with. -/
def Op.debt : Op → Nat
  | .call _ => 11
  | .enableWrite => 10
  | .handleMessage => 5
  | .readNonBlocking | .handleWrite => 3
  | .handleClose => 2
  | .messageReady | .messageDone | .onClose | .sendInternal _ | .retrieveNone => 1

/-- What a call that is to be repeated costs. -/
def Label.retries : Label → Nat
  | .read _ (.error .eintr) => 1
  | .write _ (.error _) => 9
  | _ => 0

/-- What it costs that a `write` leaves the send queue full without having written anything. -/
def Label.stalls (label : Label) (full : Bool) : Nat :=
  match label with
  | .write _ (.error _) => 10
  | .write bytes (.accepted 0) => if bytes = [] ∧ full = false then 0 else 10
  | _ => 0

/-- What it costs that a registration makes the item ready. -/
def Label.arms : Label → Nat
  | .epollCtl _ => 9
  | _ => 0

namespace Op

variable {c c' : Connection} {op : Op} {label : Label} {ops : List Op}

theorem debt_readNonBlocking {r : ReadResult} : (((c.readNonBlocking r).2).map debt).sum + 1
    ≤ 3 + r.bytes.length + (Label.read c.readCount r).retries := by
  have hpass := c.pass r
  generalize c.readNonBlocking r = out at hpass ⊢
  cases hpass with
  | @header data _ hdata | @headerDone data _ _ hdata | @body data _ hdata =>
      have hpos := List.length_pos_of_ne_nil hdata
      simp only [List.map_cons, List.map_nil, List.sum_cons, List.sum_nil, debt, ReadResult.bytes]
      omega
  | interrupted => simp [debt, ReadResult.bytes, Label.retries]
  | again | failed | headerEnd | oversized | bodyEmpty | bodyEnd | bodyDone =>
      simp only [List.map_cons, List.map_nil, List.sum_cons, List.sum_nil, debt]
      omega

theorem debt_handleWrite {bytes : List UInt8} {r : WriteResult}
    (h : handleWrite.exec c (.write bytes r) = some (c', ops)) :
    (ops.map debt).sum + 1 ≤ 3 + (Label.write bytes r).retries := by
  obtain ⟨-, h⟩ := Option.ite_none_right_eq_some.mp h
  cases r with
  | accepted count =>
      obtain ⟨buffer, -, h⟩ := Option.bind_eq_some_iff.mp h
      cases h
      simp only [List.map_nil, List.sum_nil]
      omega
  | error errno =>
      rw [Connection.writeNonBlocking] at h
      split at h <;> cases h <;> simp [debt, Label.retries]

theorem count_le_of_exec {bytes : List UInt8} {r : WriteResult}
    (h : op.exec c (.write bytes r) = some (c', ops)) : r.count ≤ bytes.length := by
  cases op with
  | call f =>
      cases f with
      | send => exact (Option.ite_none_right_eq_some.mp h).1.2.2
      | send2 | sendWithTwoSysCall | handleClose => cases h
  | sendInternal => exact (Option.ite_none_right_eq_some.mp h).1.2.2.2
  | handleWrite => exact (Option.ite_none_right_eq_some.mp h).1.2
  | _ => cases h

/-- Every operation but a callback pays for the ones that it leaves. -/
theorem debt_exec (h : op.exec c label = some (c', ops)) (hdirect : op.isDirect = false)
    (hlabel : ∀ calls, label ≠ .onMessage calls) :
    (ops.map debt).sum + label.arms + 1 ≤ op.debt + label.bytesRead.length + label.retries := by
  have hexec := exec_cases h
  cases hexec with
  | read => exact debt_readNonBlocking
  | flush | flushRetry | flushFailed => exact debt_handleWrite h
  | message => exact absurd rfl (hlabel _)
  | close =>
      split <;> simp only [List.map_cons, List.map_nil, List.sum_cons, List.sum_nil, debt, Label.arms] <;>
        omega
  | sendWithTwoSysCall => cases hdirect
  | writeFailed hop | writeAll hop | writePart hop | queueNone hop | queueAll hop =>
      cases op with
      | call f =>
          cases f with
          | send => cases hdirect
          | send2 | sendWithTwoSysCall | handleClose => exact hop.elim
      | sendInternal => cases hdirect
      | _ => exact hop.elim
  | _ =>
      simp only [List.map_cons, List.map_nil, List.sum_cons, List.sum_nil, debt, Label.arms]
      omega

/-- An operation of an echo server's connection can run if the message that it sends fits into the buffer. -/
theorem canRun_of_fits (hb : c.sendBuffer.Ok) (hdirect : op.isDirect = false)
    (hfits : ∀ f, op = .call f → f.Fits c.sendBuffer) : op.CanRun c := by
  have hroom : c.sendBuffer.writeIndex + (0 : Nat) ≤ CInt.max := by
    have hwrite := hb.writeIndex_le
    have hlength := hb.length_le
    omega
  cases op with
  | call f =>
      cases f with
      | send2 msg =>
          refine canRun hb trivial ?_ fun f hop => Op.call.inj hop ▸ trivial
          rw [output_send (.send2 msg) msg rfl, length_frameBytes]
          exact hfits _ rfl
      | handleClose => exact canRun hb trivial hroom fun f hop => Op.call.inj hop ▸ trivial
      | send | sendWithTwoSysCall => cases hdirect
  | sendInternal => cases hdirect
  | _ => exact canRun hb trivial hroom fun f hop => by cases hop

end Op

/-- The kernel has an answer to every `read`, and is not forced to interrupt it. -/
theorem Socket.exists_read (k : Socket) (count : Nat) : ∃ r k', k.read count r = some k' ∧
    r.bytes.length ≤ count ∧ r.isHard = false ∧ (Label.read count r).retries = 0 := by
  by_cases hzero : count = 0
  · exact ⟨.data [], k, if_pos (.inl hzero), Nat.zero_le _, rfl, rfl⟩
  · cases hqueue : k.recvQueue with
    | nil =>
        cases hfin : k.fin with
        | true => exact ⟨.data [], k, if_pos (.inr ⟨hqueue, hfin⟩), Nat.zero_le _, rfl, rfl⟩
        | false =>
            exact ⟨.error .eagain, k, by simp [read, hzero, hqueue, hfin], Nat.zero_le _, rfl, rfl⟩
    | cons b bytes =>
        refine ⟨.data [b], _, if_pos ?_, Nat.one_le_iff_ne_zero.mpr hzero, rfl, rfl⟩
        rw [hqueue]
        rfl

theorem length_flatMap_frameBytes (fs : List (Frame tlv)) :
    ((fs.map Frame.body).flatMap frameBytes).length = (encode fs).length := by
  induction fs with
  | nil => rfl
  | cons f fs ih =>
      have hsymbols : f.symbols.length = tlvHeaderLength + f.body.length := by
        rw [f.length_symbols, f.length_body]
        rfl
      rw [List.map_cons, List.flatMap_cons, List.length_append, length_frameBytes, ih, encode_cons,
        List.length_append, hsymbols]

namespace Session

variable {s : Session}

theorem length_encode_split (s : Session) : (encode (split tlv s.history.consumed).1).length
    ≤ s.history.consumed.length := by
  conv_rhs => rw [← encode_split (F := tlv) s.history.consumed]
  exact List.length_append ▸ Nat.le_add_right _ _

/-- No more is written than was read. -/
theorem Serving.wire_le (hs : s.Serving) : s.history.wire.length ≤ s.history.consumed.length := by
  have hle := hs.output_of_input.length_le
  rw [bodies, length_flatMap_frameBytes] at hle
  exact hle.trans s.length_encode_split

theorem Serving.seen_le (hs : s.Serving) : s.history.seen.length ≤ s.history.consumed.length := by
  have hle := hs.reading.seen_of_consumed.length_le
  rw [bodies, List.length_map] at hle
  exact hle.trans ((length_le_length_encode _).trans s.length_encode_split)

end Session

namespace Endpoint

variable {n n' : Endpoint} {action : Action}

/-- The message callback is the echo server's, and no one else uses the connection. -/
def Answers (n : Endpoint) : Action → Prop
  | .run label _ => n.session.Echoes label
  | _ => True

instance (n : Endpoint) : (action : Action) → Decidable (n.Answers action)
  | .run label _ => inferInstanceAs (Decidable (n.session.Echoes label))
  | .arrive _ | .fin | .drain | .epollWait => .isTrue trivial

theorem Echoes.answers (h : n.Echoes action) : n.Answers action := by
  cases action with
  | run => exact h.session
  | _ => trivial

theorem serving_of_reachable (hn : Machine.Reachable Endpoint.step Answers Fresh n) : n.session.Serving := by
  induction hn with
  | init hn => exact hn.session.serving
  | @step n n' action _ hanswers h ih =>
      rcases session_step h with hsame | ⟨events, hstep⟩ | ⟨label, full, rfl, -, hstep⟩
      · rwa [hsame]
      · exact ih.step (show n.session.Echoes (.event events) from trivial) hstep
      · exact ih.step hanswers hstep

/-- The steps that are left to be done without anything new from outside. -/
def debt (n : Endpoint) : Nat :=
  n.socket.recvQueue.length + 10 * (n.socket.received.length - n.session.history.wire.length) +
    12 * (n.socket.received.length - n.session.history.seen.length) + (n.session.stack.map Op.debt).sum +
    (if n.item.ready then 9 else 0) + if n.socket.sendFull then 10 else 0

/-- The debt that a step brings in from outside. -/
def Action.credit : Action → Nat
  | .arrive bytes => 23 * bytes.length + 10
  | .fin => 10
  | .drain | .epollWait => 0
  | .run label full => label.retries + label.stalls full

theorem debt_write {k : Socket} {bytes : List UInt8} {r : WriteResult} {full : Bool} :
    (if (k.write bytes.length r full).sendFull then 10 else 0) ≤ (if k.sendFull then 10 else 0) +
      10 * r.count + (Label.write bytes r).stalls full := by
  cases r with
  | accepted count =>
      cases count with
      | zero =>
          cases bytes <;> cases full <;> simp [Socket.write, Label.stalls]
      | succ count =>
          split <;> simp only [WriteResult.count] <;> omega
  | error errno =>
      split <;> simp only [Label.stalls] <;> omega

theorem debt_handleEvent (s : Session) (events : EpollEvents) :
    ((s.handleEvent events).stack.map Op.debt).sum ≤ 8 := by
  unfold Session.handleEvent Connection.handleEventWithGuard
  dsimp only
  split <;> split <;> simp [Op.debt]

theorem debt_rearm (n : Endpoint) (session : Session) (label : Label) :
    (if (n.rearm session label).ready then 9 else 0) ≤ (if n.item.ready then 9 else 0) + label.arms := by
  cases label with
  | epollCtl =>
      rw [Label.arms]
      split <;> omega
  | _ => exact Nat.le_refl _

/-- The callback is paid for by the message. -/
theorem debt_onMessage (c : Connection) :
    (((EchoServer.onMessage c).map Op.call ++ [Op.messageDone]).map Op.debt).sum ≤ 12 := by
  unfold EchoServer.onMessage
  split <;> simp [Op.debt]

theorem debt_full {label : Label} {full : Bool} {socket : Socket} (hanswer : n.answer label full = some socket)
    (hcount : ∀ bytes r, label = .write bytes r → r.count ≤ bytes.length) :
    (if socket.sendFull then 10 else 0) ≤ (if n.socket.sendFull then 10 else 0) +
      10 * label.written.length + label.stalls full := by
  cases label with
  | event => cases hanswer
  | read =>
      obtain ⟨-, hframe, -⟩ := Socket.read_spec hanswer
      rw [hframe]
      exact Nat.le_add_right _ _
  | write bytes r =>
      obtain rfl := Option.some.inj hanswer
      rw [Label.written, List.length_take, Nat.min_eq_left (hcount bytes r rfl)]
      exact debt_write
  | call | tau | epollCtl | onMessage | onClose =>
      obtain rfl := Option.some.inj hanswer
      exact Nat.le_add_right _ _

section Run

variable {op : Op} {rest ops : List Op} {conn : Connection} {label : Label} {socket : Socket} {full : Bool}

/-- A step of the handlers pays for itself, unless a call is interrupted or writes nothing. -/
theorem debt_run {session : Session} (hanswering : n.session.Answering)
    (hecho : n.session.Echoes label) (hanswer : n.answer label full = some socket)
    (hsession : n.session.step label = some session)
    (hwire : session.history.wire.length ≤ socket.received.length)
    (hseen : session.history.seen.length ≤ socket.received.length) :
    (Endpoint.mk session socket (n.rearm session label)).debt + 1 ≤
      n.debt + (label.retries + label.stalls full) := by
  obtain ⟨hqueue, -, hreceived, -⟩ := answer_spec hanswer
  have hlength := congrArg List.length hqueue
  rw [List.length_append] at hlength
  have hrearm := n.debt_rearm session label
  rw [hreceived] at hwire hseen
  rcases Session.step_cases hsession with ⟨-, events, rfl, -⟩ | ⟨-, f, rfl, -⟩ |
    ⟨op, rest, conn, ops, hstack, hexec, rfl⟩
  · cases hanswer
  · exact hecho.elim
  · have hdirect := hanswering.buffered op (hstack ▸ List.mem_cons_self)
    have hwritten := Session.step_wire hsession
    dsimp only at hwire hseen hwritten hrearm ⊢
    simp only [debt, hreceived, hstack, List.map_append, List.map_cons, List.sum_append, List.sum_cons]
    by_cases hlabel : ∃ calls, label = .onMessage calls
    · obtain ⟨calls, rfl⟩ := hlabel
      cases Op.exec_cases hexec with
      | message =>
          obtain rfl : calls = EchoServer.onMessage n.session.conn := hecho
          obtain rfl := Option.some.inj hanswer
          have hops := debt_onMessage n.session.conn
          simp only [History.record, Op.debt, Label.arms, Label.retries, Label.stalls, List.map_append,
            List.sum_append, List.length_append, List.length_singleton] at hseen hrearm hops ⊢
          omega
    · have hops := Op.debt_exec hexec hdirect (not_exists.mp hlabel)
      have hfull := debt_full hanswer fun bytes r hwrite => Op.count_le_of_exec (hwrite ▸ hexec)
      obtain ⟨-, hsame⟩ := Session.starts_run hstack (Op.exec_cases hexec) (not_exists.mp hlabel)
      rw [hwritten, List.length_append] at hwire
      rw [hwritten, hsame, List.length_append]
      omega

end Run

/-- **Every step is paid for.** -/
theorem debt_step (hn : Machine.Reachable Endpoint.step Answers Fresh n) (hanswers : n.Answers action)
    (h : n.step action = some n') : n'.debt + 1 ≤ n.debt + action.credit := by
  have hn' : Machine.Reachable Endpoint.step Answers Fresh n' := .step hn hanswers h
  have hserving := serving_of_reachable hn
  have hserving' := serving_of_reachable hn'
  have hreceived' := congrArg List.length (received_of_reachable hn')
  rw [List.length_append] at hreceived'
  have hwire := hserving'.wire_le
  have hseen := hserving'.seen_le
  have hreceived := congrArg List.length (received_of_reachable hn)
  rw [List.length_append] at hreceived
  have hwire' := hserving.wire_le
  have hseen' := hserving.seen_le
  cases action with
  | arrive bytes =>
      obtain ⟨-, h⟩ := Option.ite_none_right_eq_some.mp h
      cases h
      simp only [debt, Action.credit, List.length_append, ite_true]
      omega
  | fin =>
      obtain ⟨-, h⟩ := Option.ite_none_right_eq_some.mp h
      cases h
      simp only [debt, Action.credit, ite_true]
      omega
  | drain =>
      obtain ⟨hfull, h⟩ := Option.ite_none_right_eq_some.mp h
      cases h
      simp only [debt, Action.credit, hfull, ite_true, Bool.false_eq_true, ite_false]
      omega
  | epollWait =>
      obtain ⟨⟨hidle, hready⟩, h⟩ := Option.ite_none_right_eq_some.mp h
      cases h
      have hstack := debt_handleEvent n.session (n.socket.current.reported n.item.events)
      simp only [debt, Action.credit, hidle, hready, ite_true, Bool.false_eq_true, ite_false, List.map_nil,
        List.sum_nil, Session.handleEvent] at hstack ⊢
      omega
  | run label full =>
      obtain ⟨socket, hanswer, h⟩ := Option.bind_eq_some_iff.mp h
      obtain ⟨session, hsession, h⟩ := Option.bind_eq_some_iff.mp h
      cases h
      exact debt_run hserving.answering hanswers hanswer hsession (by dsimp only at *; omega)
        (by dsimp only at *; omega)

theorem isSome_step {op : Op} {rest : List Op} {label : Label} {full : Bool} {socket : Socket}
    (hstack : n.session.stack = op :: rest) (hanswer : n.answer label full = some socket)
    (hexec : (op.exec n.session.conn label).isSome) : (n.step (.run label full)).isSome := by
  obtain ⟨⟨conn, ops⟩, hexec⟩ := Option.isSome_iff_exists.mp hexec
  rw [step, hanswer, Option.bind_eq_bind, Option.bind_some, Session.step_of_exec hstack hexec]
  rfl

/-- An operation that can run has a step that brings in no debt. -/
theorem exists_step {op : Op} {rest : List Op} (hstack : n.session.stack = op :: rest)
    (hcan : op.CanRun n.session.conn) :
    ∃ label full, n.Echoes (.run label full) ∧ (Action.run label full).credit = 0 ∧
      (n.step (.run label full)).isSome := by
  rcases hcan with hexec | hexec | hexec | hexec | ⟨count, hexec⟩ | ⟨bytes, hexec⟩
  · exact ⟨.tau, false, trivial, rfl, isSome_step hstack rfl hexec⟩
  · exact ⟨.onClose, false, trivial, rfl, isSome_step hstack rfl hexec⟩
  · exact ⟨.epollCtl true, false, rfl, rfl, isSome_step hstack rfl (hexec true)⟩
  · exact ⟨.onMessage _, false, rfl, rfl, isSome_step hstack rfl (hexec _)⟩
  · obtain ⟨r, socket, hread, hcount, hsoft, hretries⟩ := n.socket.exists_read count
    exact ⟨.read count r, false, hsoft, hretries, isSome_step hstack hread (hexec r hcount)⟩
  · refine ⟨.write bytes (.accepted bytes.length), false, rfl, ?_,
      isSome_step hstack rfl (hexec _ (Nat.le_refl _))⟩
    cases bytes <;> rfl

/-- A connection that nothing is left to be done on. -/
structure AtRest (n : Endpoint) : Prop where
  idle : n.session.stack = []
  quiet : n.item.ready = false
  room : n.socket.sendFull = false

theorem answers_of_reachable (hn : Machine.Reachable Endpoint.step Echoes Fresh n) :
    Machine.Reachable Endpoint.step Answers Fresh n := hn.mono (fun _ h => h) fun _ _ h => h.answers

/-- A connection at rest has read everything that arrived and written every answer. -/
theorem AtRest.answered (hrest : n.AtRest) (hn : Machine.Reachable Endpoint.step Echoes Fresh n)
    (hstate : n.session.conn.state = .connected) : n.session.history.consumed = n.socket.received ∧
      n.session.history.wire = (bodies tlv n.socket.received).flatMap frameBytes := by
  obtain ⟨hunstranded, hechoing⟩ := echoing_of_reachable hn
  have hserving := serving_of_reachable (answers_of_reachable hn)
  have hsession := session_of_reachable hn
  have hconsumed : n.session.history.consumed = n.socket.received := by
    have hqueue : n.socket.recvQueue = [] := by
      by_contra hunread
      have hready := ((Session.delivering_of_reachable hsession).idle hrest.idle).1
      have howed := hunstranded.owed hstate (.inl hunread)
      simp [Owes, hrest.idle, hrest.quiet, hready] at howed
    rw [received_of_reachable hn, hqueue, List.append_nil]
  have hbuffer : n.session.conn.sendBuffer.readable = [] := by
    by_contra hunsent
    have hbuffered := hechoing.buffered hunsent
    simp [hrest.idle, hrest.quiet, hrest.room] at hbuffered
  have hsent : n.session.history.sent = bodies tlv n.session.history.consumed := by
    have hanswered := hechoing.answering.answered hstate
    rw [hrest.idle, List.flatMap_nil, List.append_nil] at hanswered
    exact hanswered.trans (Session.idle_of_reachable hsession hrest.idle).2.2
  have hstream := hserving.sending.stream
  rw [hbuffer, hrest.idle, List.flatMap_nil, List.append_nil, List.append_nil, hsent, hconsumed] at hstream
  exact ⟨hconsumed, hstream⟩

/-- An empty message, whose answer the first `write` takes only five bytes of. -/
def answering : List Action :=
  [.arrive (List.replicate 8 0), .epollWait, .run .tau false, .run (.read 8 (.data (List.replicate 8 0))) false,
    .run (.read 0 (.data [])) false, .run (.onMessage [.send2 []]) false, .run .tau false,
    .run (.epollCtl true) false, .run .tau false, .epollWait,
    .run (.write (List.replicate 8 0) (.accepted 5)) false, .drain, .epollWait,
    .run (.write (List.replicate 3 0) (.accepted 3)) false]

end Endpoint

end EpollServer
