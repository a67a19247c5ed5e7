import EpollServer.EdgeTriggered
import EpollServer.Proof.Delivery

/-!
# Input that no event announces

Under edge-triggered epoll, input that a handler leaves unread is read only if the item becomes ready
again. The read loop leaves input behind when a frame is complete, and counts on the callback to register
the channel again. `Endpoint.Unstranded` holds as long as that happens: unread input is announced, or the
loop thread is still to read.
-/

namespace EpollServer

open Framing

/-- The loop ends with nothing left to do only when a frame is complete or nothing is to be read. -/
theorem Connection.readNonBlocking_exit {c : Connection} {r : ReadResult}
    (h : (c.readNonBlocking r).2 = []) : (c.readNonBlocking r).1.readyToHandleMessage = true ∨
      ∃ errno, r = .error errno ∧ errno.isAgain = true := by
  have hpass := c.pass r
  generalize c.readNonBlocking r = out at hpass h ⊢
  cases hpass with
  | again hagain => exact .inr ⟨_, rfl, hagain⟩
  | bodyEmpty | bodyDone => exact .inl rfl
  | interrupted | failed | headerEnd | header | oversized | headerDone | bodyEnd | body => cases h

namespace Op

variable {c c' : Connection} {op : Op} {label : Label} {ops : List Op}

theorem Exec.listening (h : Exec c op label c' ops) :
    c'.channel.listeningEvents = c.channel.listeningEvents ∨ op = .enableWrite ∧
      c'.channel.listeningEvents
        = c.channel.listeningEvents.union { EpollEvents.none with epollout := true } := by
  cases h with
  | @read r =>
      obtain ⟨_, _, _, _, _, hframe⟩ := c.readNonBlocking_frame r
      exact .inl (by rw [hframe])
  | enableWrite => exact .inr ⟨rfl, by simp [Channel.enableWrite, Channel.listen]⟩
  | _ => exact .inl rfl

end Op

namespace Session

variable {s s' : Session} {label : Label}

theorem step_listening (h : s.step label = some s') :
    s'.conn.channel.listeningEvents = s.conn.channel.listeningEvents ∨
      s'.conn.channel.listeningEvents
        = s.conn.channel.listeningEvents.union { EpollEvents.none with epollout := true } := by
  rcases step_cases h with ⟨-, events, -, rfl⟩ | ⟨-, f, -, rfl⟩ | ⟨op, rest, conn, ops, -, hexec, rfl⟩
  · exact .inl rfl
  · exact .inl rfl
  · exact (Op.exec_cases hexec).listening.imp_right And.right

end Session

namespace Endpoint

variable {n n' : Endpoint} {action : Action}

/-- A connection just registered for reading. -/
structure Fresh (n : Endpoint) : Prop where
  session : n.session.Fresh
  listening : n.session.conn.channel.listeningEvents.epollin = true
  events : n.item.events = n.session.conn.channel.listeningEvents
  ready : n.Unread → n.item.ready = true
  received : n.socket.received = n.socket.recvQueue

theorem current_of_unread (hunread : n.Unread) : n.socket.current.epollin = true := by
  rcases hunread with hqueue | hfin
  · simp [Socket.current, hqueue]
  · simp [Socket.current, hfin]

/-- The two registrations, in the constructor and in `ConnectionEstablished`, lead there. -/
theorem fresh_connectionEstablished (loop : Nat) (connfd : Fd) (state : ConnectionState) (tied : Bool)
    (socket : Socket) (hreceived : socket.received = socket.recvQueue) : Fresh {
      session := .new (((Connection.new loop connfd state tied
        true).setCloseCallback.setMessageCallback).connectionEstablished true)
      socket := socket
      item := ((EpollItem.mk .none false).ctl { EpollEvents.none with epollet := true } socket.current
        true).ctl { EpollEvents.none with epollin := true, epollpri := true, epollet := true }
          socket.current true } where
  session := Session.fresh_connectionEstablished ..
  listening := rfl
  events := rfl
  ready := by
    intro hunread
    have hin : socket.current.epollin = true := current_of_unread hunread
    simp [EpollItem.ctl, EpollEvents.reported, EpollEvents.none, hin]
  received := hreceived

/-- What a step of an endpoint can do. -/
inductive Moves (n : Endpoint) : Action → Endpoint → Prop
  | arrive {bytes} (hopen : n.socket.fin = false) :
      Moves n (.arrive bytes) { n with
        socket := { n.socket with
          recvQueue := n.socket.recvQueue ++ bytes
          received := n.socket.received ++ bytes }
        item := { n.item with ready := true } }
  | fin (hopen : n.socket.fin = false) :
      Moves n .fin { n with
        socket := { n.socket with fin := true }
        item := { n.item with ready := true } }
  | drain : Moves n .drain { n with
      socket := { n.socket with sendFull := false }
      item := { n.item with ready := true } }
  | epollWait (hidle : n.session.stack = []) :
      Moves n .epollWait { n with
        session := n.session.handleEvent (n.socket.current.reported n.item.events)
        item := { n.item with ready := false } }
  | run {label full socket session} (hanswer : n.answer label full = some socket)
      (hsession : n.session.step label = some session) :
      Moves n (.run label full) ⟨session, socket, n.rearm session label⟩

/-- **What a step can do.** -/
theorem moves_of_step (h : n.step action = some n') : n.Moves action n' := by
  cases action with
  | arrive bytes =>
      obtain ⟨⟨-, hopen⟩, h⟩ := Option.ite_none_right_eq_some.mp h
      cases h
      exact .arrive hopen
  | fin =>
      obtain ⟨hopen, h⟩ := Option.ite_none_right_eq_some.mp h
      cases h
      exact .fin hopen
  | drain =>
      obtain ⟨-, h⟩ := Option.ite_none_right_eq_some.mp h
      cases h
      exact .drain
  | epollWait =>
      obtain ⟨⟨hidle, -⟩, h⟩ := Option.ite_none_right_eq_some.mp h
      cases h
      exact .epollWait hidle
  | run label full =>
      obtain ⟨socket, hanswer, h⟩ := Option.bind_eq_some_iff.mp h
      obtain ⟨session, hsession, h⟩ := Option.bind_eq_some_iff.mp h
      cases h
      exact .run hanswer hsession

/-- A step of the session begins a call from elsewhere, or runs the operation on top. -/
theorem run_cases {label : Label} {full : Bool} {socket : Socket} {session : Session}
    (hanswer : n.answer label full = some socket) (hsession : n.session.step label = some session) :
    (n.session.stack = [] ∧ ∃ f, label = .call f ∧ socket = n.socket ∧
      session = { n.session with stack := [.call f] }) ∨
    ∃ op rest conn ops, n.session.stack = op :: rest ∧ op.Exec n.session.conn label conn ops ∧
      session = { n.session with
        conn := conn
        stack := ops ++ rest
        history := n.session.history.record n.session.conn op label } := by
  rcases Session.step_cases hsession with ⟨-, events, rfl, -⟩ | ⟨hidle, f, rfl, heq⟩ |
    ⟨op, rest, conn, ops, hstack, hexec, heq⟩
  · cases hanswer
  · exact .inl ⟨hidle, f, rfl, (Option.some.inj hanswer).symm, heq⟩
  · exact .inr ⟨op, rest, conn, ops, hstack, Op.exec_cases hexec, heq⟩

/-- A `read` that asks for no bytes is not refused. -/
theorem legal_of_answer {label : Label} {full : Bool} {socket : Socket}
    (hanswer : n.answer label full = some socket) : label.legal := by
  cases label with
  | read count r =>
      cases count with
      | zero =>
          cases r with
          | data => trivial
          | error errno =>
              cases errno with
              | eintr => rfl
              | eagain | ewouldblock | other => cases hanswer
      | succ => trivial
  | _ => trivial

theorem session_step (h : n.step action = some n') : n'.session = n.session ∨
    (∃ events, n.session.step (.event events) = some n'.session) ∨
    ∃ label full, action = .run label full ∧ label.legal ∧ n.session.step label = some n'.session := by
  cases moves_of_step h with
  | arrive | fin | drain => exact .inl rfl
  | epollWait hidle => exact .inr (.inl ⟨_, by rw [Session.step, hidle]⟩)
  | run hanswer hsession => exact .inr (.inr ⟨_, _, rfl, legal_of_answer hanswer, hsession⟩)

/-- What the steps of a session keep, the steps of its endpoint keep. -/
theorem session_keeps {P : Session → Prop} (h : n.step action = some n') (hbefore : P n.session)
    (hkeep : ∀ label, n.session.step label = some n'.session → P n'.session) : P n'.session := by
  rcases session_step h with hsame | ⟨events, hstep⟩ | ⟨label, full, -, -, hstep⟩
  · rwa [hsame]
  · exact hkeep _ hstep
  · exact hkeep _ hstep

theorem session_of_reachable {ok : Endpoint → Action → Prop}
    (hn : Machine.Reachable Endpoint.step ok Fresh n) :
    Machine.Reachable Session.step (fun _ label => label.legal) Session.Fresh n.session := by
  refine hn.map Endpoint.session (fun n hn => .init hn.session) fun n action n' _ _ h => ?_
  rcases session_step h with hsame | ⟨events, hstep⟩ | ⟨label, full, -, hlegal, hstep⟩
  · exact .inl hsame
  · exact .inr ⟨.event events, trivial, hstep⟩
  · exact .inr ⟨label, hlegal, hstep⟩

/-- The thread that runs the session is still to read, to call back or to close. -/
def Owes (s : Session) : Prop :=
  Op.handleMessage ∈ s.stack ∨ Op.readNonBlocking ∈ s.stack ∨ Op.handleClose ∈ s.stack ∨
    s.conn.readyToHandleMessage = true

theorem ready_rearm (session : Session) (label : Label) (hready : n.item.ready = true) :
    (n.rearm session label).ready = true := by
  cases label with
  | epollCtl ok => cases ok <;> simp [rearm, EpollItem.ctl, hready]
  | _ => exact hready

/-- What is owed stays owed, until a read finds nothing, or the callback has returned. -/
theorem Owes.step {s s' : Session} {label : Label} (hs : Owes s) (hdelivering : s.Delivering)
    (h : s.step label = some s') (hstate : s'.conn.state = .connected) :
    Owes s' ∨ s.stack.head? = some .messageDone ∨
      ∃ count errno, label = .read count (.error errno) ∧ errno.isAgain = true := by
  have hidle (hstack : s.stack = []) : False := by
    have hready := (hdelivering.idle hstack).1
    simp [Owes, hstack, hready] at hs
  rcases Session.step_cases h with ⟨hstack, -⟩ | ⟨hstack, -⟩ |
    ⟨op, rest, conn, ops, hstack, hexec, rfl⟩
  · exact (hidle hstack).elim
  · exact (hidle hstack).elim
  · have hexec := Op.exec_cases hexec
    -- what is owed below the operation that runs
    have hkeep (hnot : op ≠ .handleMessage ∧ op ≠ .readNonBlocking ∧ op ≠ .handleClose)
        (hready : s.conn.readyToHandleMessage = true → conn.readyToHandleMessage = true) :
        Owes { s with
          conn := conn, stack := ops ++ rest, history := s.history.record s.conn op label } := by
      have hmem {a : Op} (hne : op ≠ a) (ha : a ∈ s.stack) : a ∈ ops ++ rest := by
        rw [hstack] at ha
        exact List.mem_append_right ops ((List.mem_cons.mp ha).resolve_left (Ne.symm hne))
      exact hs.imp (hmem hnot.1) (Or.imp (hmem hnot.2.1) (Or.imp (hmem hnot.2.2) hready))
    cases hexec with
    | handleMessage => exact .inl (.inr (.inl (by simp)))
    | @read r hcount =>
        rcases s.conn.readNonBlocking_ops r with heq | heq | heq
        · rcases Connection.readNonBlocking_exit heq with hready | ⟨errno, hr, hagain⟩
          · exact .inl (.inr (.inr (.inr hready)))
          · exact .inr (.inr ⟨_, errno, by rw [hr], hagain⟩)
        · exact .inl (.inr (.inl (by simp [heq])))
        · exact .inl (.inr (.inr (.inl (by simp [heq]))))
    | messageDone => exact .inr (.inl (by rw [hstack]; rfl))
    | closed hclosed => exact absurd (hclosed.symm.trans hstate) (by decide)
    | close => cases hstate
    | writeFailed hop | writeAll hop | writePart hop | queueNone hop | queueAll hop =>
        refine .inl (hkeep ⟨?_, ?_, ?_⟩ id) <;> exact fun h => (h ▸ hop).elim
    | _ => exact .inl (hkeep ⟨by simp, by simp, by simp⟩ id)

/-- Unread input of an open connection is announced, or the thread still owes a read. -/
structure Unstranded (n : Endpoint) : Prop where
  listening : n.session.conn.channel.listeningEvents.epollin = true
  events : n.item.events.epollin = true
  owed : n.session.conn.state = .connected → n.Unread → n.item.ready = true ∨ Owes n.session

theorem Fresh.unstranded (hn : n.Fresh) : n.Unstranded :=
  ⟨hn.listening, hn.events ▸ hn.listening, fun _ hunread => .inl (hn.ready hunread)⟩

/-- The callback has re-armed: when it returns, unread input of the open connection is announced. -/
def Rearmed (n : Endpoint) : Action → Prop
  | .run _ _ => n.session.stack.head? = some .messageDone → n.session.conn.state = .connected →
      n.Unread → n.item.ready = true
  | _ => True

instance (n : Endpoint) (action : Action) : Decidable (n.Rearmed action) := by
  unfold Rearmed
  split <;> infer_instance

theorem Unstranded.epollWait (hn : n.Unstranded) (hunread : n.Unread) :
    Owes (n.session.handleEvent (n.socket.current.reported n.item.events)) := by
  have hin := current_of_unread hunread
  have hreadable : (n.socket.current.reported n.item.events).isReadable = true := by
    simp [EpollEvents.reported, EpollEvents.isReadable, hin, hn.events]
  left
  simp [Session.handleEvent, Connection.handleEventWithGuard, Channel.setReadyEvents, hreadable]

theorem answer_spec {label : Label} {full : Bool} {socket : Socket}
    (h : n.answer label full = some socket) :
    n.socket.recvQueue = label.bytesRead ++ socket.recvQueue ∧ socket.fin = n.socket.fin ∧
      socket.received = n.socket.received ∧
      (n.socket.sendFull = true → socket.sendFull = true) := by
  cases label with
  | event => cases h
  | read count r =>
      obtain ⟨hqueue, hframe, -⟩ := Socket.read_spec h
      exact ⟨hqueue, by rw [hframe], by rw [hframe], fun hfull => by rwa [hframe]⟩
  | write bytes r =>
      cases h
      refine ⟨by simp [Label.bytesRead], by simp, by simp, fun hfull => ?_⟩
      cases r with
      | accepted => simp [Socket.write, hfull]
      | error errno => cases errno <;> simp [Socket.write, Errno.isAgain, hfull]
  | call | tau | epollCtl | onMessage | onClose =>
      cases h
      exact ⟨rfl, rfl, rfl, id⟩

/-- What is unread after a step was unread before, and the step did not find that nothing is. -/
theorem unread_of_answer {label : Label} {full : Bool} {socket : Socket}
    (h : n.answer label full = some socket) (hunread : socket.recvQueue ≠ [] ∨ socket.fin = true) :
    n.Unread ∧ ∀ count errno, label = .read count (.error errno) → errno.isAgain = false := by
  obtain ⟨hqueue, hfin, -⟩ := answer_spec h
  have hbefore : n.Unread := by
    refine hunread.imp (fun hrest hnil => hrest ?_) (fun h => hfin.symm.trans h)
    exact (List.append_eq_nil_iff.mp (hqueue.symm.trans hnil)).2
  refine ⟨hbefore, ?_⟩
  rintro count errno rfl
  refine Bool.eq_false_iff.mpr fun hagain => ?_
  obtain ⟨hnil, hopen⟩ := (Socket.read_spec h).2.2 errno rfl hagain
  rcases hbefore with hrest | hfin
  · exact hrest hnil
  · exact absurd (hopen.symm.trans hfin) Bool.false_ne_true

theorem Unstranded.step (hn : n.Unstranded) (hdelivering : n.session.Delivering)
    (hrearmed : n.Rearmed action) (h : n.step action = some n') : n'.Unstranded := by
  cases moves_of_step h with
  | arrive | fin | drain => exact ⟨hn.listening, hn.events, fun _ _ => .inl rfl⟩
  | epollWait => exact ⟨hn.listening, hn.events, fun _ hunread => .inr (hn.epollWait hunread)⟩
  | @run label full socket session hanswer hsession =>
      have hlistening : session.conn.channel.listeningEvents.epollin = true := by
        rcases Session.step_listening hsession with heq | heq <;> rw [heq]
        · exact hn.listening
        · exact Bool.or_eq_true_iff.mpr (.inl hn.listening)
      refine ⟨hlistening, ?_, fun hstate hunread => ?_⟩
      · cases label with
        | epollCtl ok =>
            cases ok with
            | false => exact hn.events
            | true => exact hlistening
        | _ => exact hn.events
      · obtain ⟨hbefore, hagain⟩ := unread_of_answer hanswer hunread
        have hstate' := Session.step_connected hsession hstate
        rcases hn.owed hstate' hbefore with hready | howes
        · exact .inl (ready_rearm session label hready)
        · rcases howes.step hdelivering hsession hstate with howes | hdone | ⟨count, errno, hlabel, hr⟩
          · exact .inr howes
          · exact .inl (ready_rearm session label (hrearmed hdone hstate' hbefore))
          · exact absurd (hr.symm.trans (hagain count errno hlabel)) (by decide)

theorem unstranded_of_reachable (hn : Machine.Reachable Endpoint.step Rearmed Fresh n) :
    n.Unstranded :=
  hn.invariant (fun _ hn => hn.unstranded) fun _ _ _ hn hinv hok h =>
    hinv.step (Session.delivering_of_reachable (session_of_reachable hn)) hok h

theorem received_of_reachable {ok : Endpoint → Action → Prop}
    (hn : Machine.Reachable Endpoint.step ok Fresh n) :
    n.socket.received = n.session.history.consumed ++ n.socket.recvQueue := by
  induction hn with
  | init h =>
      rw [h.session.history, h.received]
      rfl
  | @step n n' action _ _ h ih =>
      cases moves_of_step h with
      | arrive =>
          dsimp only
          rw [ih, List.append_assoc]
      | fin | drain | epollWait => exact ih
      | run hanswer hsession =>
          obtain ⟨hqueue, -, hreceived, -⟩ := answer_spec hanswer
          dsimp only
          rw [hreceived, ih, hqueue, Session.step_consumed hsession, List.append_assoc]

/-- **No input is stranded when every callback re-arms.** If in each step in which the callback of an open
connection returns the item is ready, or nothing is unread, then an open connection at rest has read
everything, bytes and end of stream, and has delivered every whole frame that arrived. -/
theorem no_stranded_input (hn : Machine.Reachable Endpoint.step Rearmed Fresh n)
    (hstate : n.session.conn.state = .connected) (hidle : n.session.stack = [])
    (hready : n.item.ready = false) :
    n.socket.recvQueue = [] ∧ n.socket.fin = false ∧
      n.session.history.seen = bodies tlv n.socket.received := by
  have hsession := session_of_reachable hn
  have hflag := ((Session.delivering_of_reachable hsession).idle hidle).1
  have hread : ¬n.Unread := by
    intro hunread
    rcases (unstranded_of_reachable hn).owed hstate hunread with h | howes
    · exact absurd (hready.symm.trans h) Bool.false_ne_true
    · simp [Owes, hidle, hflag] at howes
  obtain ⟨hqueue, hfin⟩ := not_or.mp hread
  have hqueue := not_not.mp hqueue
  refine ⟨hqueue, Bool.eq_false_iff.mpr hfin, ?_⟩
  rw [(Session.idle_of_reachable hsession hidle).2.2, received_of_reachable hn, hqueue, List.append_nil]

set_option maxRecDepth 10000 in
/-- An empty message that is answered with `Send2`. -/
theorem no_stranded_input_answered : ∃ n : Endpoint, Machine.Reachable Endpoint.step Rearmed Fresh n ∧
    n.socket.received = List.replicate 8 0 ∧ n.socket.recvQueue = [] ∧
      n.session.history.seen = bodies tlv n.socket.received := by
  have hfresh := fresh_connectionEstablished 0 5 .invalid false ⟨[], false, false, []⟩ rfl
  obtain ⟨n, hrun, hstate, hidle, hready, hreceived⟩ : ∃ n,
      Machine.run Endpoint.step Rearmed {
          session := .new (((Connection.new 0 5 .invalid false
            true).setCloseCallback.setMessageCallback).connectionEstablished true)
          socket := ⟨[], false, false, []⟩
          item := ⟨⟨true, true, false, false, false, false, true⟩, false⟩ }
        [.arrive (List.replicate 8 0), .epollWait, .run .tau false,
          .run (.read 8 (.data (List.replicate 8 0))) false, .run (.read 0 (.data [])) false,
          .run (.onMessage [.send2 []]) false, .run .tau false, .run (.epollCtl true) false,
          .run .tau false, .epollWait,
          .run (.write (List.replicate 8 0) (.accepted 8)) false] = some n ∧
      n.session.conn.state = .connected ∧ n.session.stack = [] ∧ n.item.ready = false ∧
      n.socket.received = List.replicate 8 0 := ⟨_, rfl, rfl, rfl, rfl, rfl⟩
  have hn : Machine.Reachable Endpoint.step Rearmed Fresh n := .run (.init hfresh) hrun
  obtain ⟨hqueue, -, hseen⟩ := no_stranded_input hn hstate hidle hready
  exact ⟨n, hn, hreceived, hqueue, hseen⟩

/-- Two empty messages in one segment, and a callback that sends nothing: the second one stays in the
receive queue of an open connection at rest. -/
theorem stranded_input :
    ¬∀ n, Machine.Reachable Endpoint.step (fun _ _ => True) Fresh n →
      n.session.conn.state = .connected → n.session.stack = [] → n.item.ready = false →
        ¬n.Unread := by
  intro hread
  have hfresh := fresh_connectionEstablished 0 5 .invalid false ⟨[], false, false, []⟩ rfl
  obtain ⟨n, hrun, hstate, hidle, hready, hunread⟩ : ∃ n,
      Machine.run Endpoint.step (fun _ _ => True) {
          session := .new (((Connection.new 0 5 .invalid false
            true).setCloseCallback.setMessageCallback).connectionEstablished true)
          socket := ⟨[], false, false, []⟩
          item := ⟨⟨true, true, false, false, false, false, true⟩, false⟩ }
        [.arrive (List.replicate 16 0), .epollWait, .run .tau false,
          .run (.read 8 (.data (List.replicate 8 0))) false, .run (.read 0 (.data [])) false,
          .run (.onMessage []) false, .run .tau false] = some n ∧
      n.session.conn.state = .connected ∧ n.session.stack = [] ∧ n.item.ready = false ∧
      n.socket.recvQueue = List.replicate 8 0 := ⟨_, rfl, rfl, rfl, rfl, rfl⟩
  exact hread n (.run (.init hfresh) hrun) hstate hidle hready (.inl (by simp [hunread]))

end Endpoint

end EpollServer
