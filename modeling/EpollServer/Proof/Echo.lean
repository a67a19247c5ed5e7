import EpollServer.Proof.Answering
import EpollServer.Proof.RoundTrip
import EpollServer.Proof.Flushing

/-!
# The echo server answers what it received

`Send2` only buffers, and its `EnableWrite` registers the channel again. So the answer to every message
re-arms the item, for the rest of the input as well as for the output: the echo server never strands
input, and bytes in the send buffer are announced, or wait for the send queue to drain.
-/

namespace EpollServer

open Framing

namespace Op

variable {c c' : Connection} {op : Op} {label : Label} {ops : List Op}

theorem Exec.send2_ops {msg : List UInt8} (h : Exec c (.call (.send2 msg)) label c' ops) :
    ops = [.enableWrite] := by
  cases h with
  | send2 => rfl
  | writeFailed hop | writeAll hop | writePart hop | queueNone hop | queueAll hop => exact hop.elim

end Op

namespace Endpoint

variable {n n' : Endpoint} {action : Action}

/-- The echo server's callback, on a kernel where registrations succeed and nothing fails for good; no one
else uses the connection. -/
def Echoes (n : Endpoint) : Action → Prop
  | .run (.onMessage calls) _ => calls = EchoServer.onMessage n.session.conn
  | .run (.epollCtl ok) _ => ok = true
  | .run (.read _ r) _ => r.isHard = false
  | .run (.write _ r) _ => r.isHard = false
  | .run (.call _) _ => False
  | _ => True

instance (n : Endpoint) (action : Action) : Decidable (n.Echoes action) := by
  unfold Echoes
  split <;> infer_instance

theorem Echoes.session {label : Label} {full : Bool} (h : n.Echoes (.run label full)) :
    n.session.Echoes label := by
  cases label with
  | onMessage | call => exact h
  | _ => trivial

theorem Echoes.flushes (h : n.Echoes action) : n.Flushes action := by
  cases action with
  | run label full =>
      cases label with
      | epollCtl | write => exact h
      | _ => trivial
  | _ => trivial

/-- The item is to be registered again. -/
def Rearms (s : Session) : Prop :=
  (∃ msg, Op.call (.send2 msg) ∈ s.stack) ∨ Op.enableWrite ∈ s.stack

/-- What holds of an echo server's connection throughout. -/
structure Echoing (n : Endpoint) : Prop where
  events : n.item.events = n.session.conn.channel.listeningEvents
  rearm : Op.messageDone ∈ n.session.stack → n.session.conn.state = .connected → n.Unread →
    n.item.ready = true ∨ Rearms n.session
  listening : n.session.conn.sendBuffer.readable ≠ [] →
    n.session.conn.channel.listeningEvents.epollout = true ∨ Op.enableWrite ∈ n.session.stack
  buffered : n.session.conn.sendBuffer.readable ≠ [] → n.item.ready = true ∨
    n.socket.sendFull = true ∨ Op.handleWrite ∈ n.session.stack ∨ Op.enableWrite ∈ n.session.stack
  answering : n.session.Answering

theorem Echoing.flushing (hn : n.Echoing) : n.Flushing := ⟨hn.events, hn.listening, hn.buffered⟩

theorem Fresh.echoing (hn : n.Fresh) : n.Echoing := by
  have hflushing := hn.flushing
  refine ⟨hflushing.events, fun h => ?_, hflushing.listening, hflushing.buffered, hn.session.answering⟩
  rw [hn.session.stack] at h
  exact absurd h List.not_mem_nil

theorem Echoing.rearmed (hn : n.Echoing) (hstacked : n.session.Stacked) : n.Rearmed action := by
  cases action with
  | run label full =>
      intro hdone hstate hunread
      obtain ⟨rest, hstack⟩ : ∃ rest, n.session.stack = .messageDone :: rest :=
        List.head?_eq_some_iff.mp hdone
      rw [Session.Stacked, hstack, List.pairwise_cons] at hstacked
      refine (hn.rearm (hstack ▸ List.mem_cons_self) hstate hunread).resolve_right fun h => ?_
      -- below the reset only `HandleWrite` waits
      rcases h with ⟨msg, h⟩ | h <;> rw [hstack] at h <;>
        have habove := hstacked.1 _ ((List.mem_cons.mp h).resolve_left (by simp)) <;>
        simp [Op.Above, Op.isWriter] at habove
  | _ => trivial

section Run

variable {op : Op} {rest ops : List Op} {conn : Connection} {label : Label} {socket : Socket}
  {full : Bool}

/-- The answer to a message is what re-arms the item. -/
theorem Echoing.rearm_run (hn : n.Echoing) (hin : n.session.conn.channel.listeningEvents.epollin = true)
    (hstack : n.session.stack = op :: rest) (hexec : op.Exec n.session.conn label conn ops)
    (hecho : n.Echoes (.run label full)) (hunread : n.Unread)
    (hdone : Op.messageDone ∈ ops ++ rest) (hstate : conn.state = .connected) {session : Session}
    (hsession : session.conn = conn) : (n.rearm session label).ready = true ∨
      (∃ msg, Op.call (.send2 msg) ∈ ops ++ rest) ∨ Op.enableWrite ∈ ops ++ rest := by
  have hstate' := hexec.connected hstate
  by_cases hlabel : ∃ calls, label = .onMessage calls
  · obtain ⟨calls, rfl⟩ := hlabel
    cases hexec with
    | message hmessage =>
        obtain rfl : calls = EchoServer.onMessage n.session.conn := hecho
        refine .inr (.inl ⟨n.session.conn.readBuffer, ?_⟩)
        simp [EchoServer.onMessage, hstate']
  · have hops := hexec.messageDone_notMem (not_exists.mp hlabel)
    have hbefore : Op.messageDone ∈ n.session.stack :=
      hstack ▸ List.mem_cons_of_mem op ((List.mem_append.mp hdone).resolve_left hops)
    rcases hn.rearm hbefore hstate' hunread with hready | ⟨msg, hmem⟩ | hmem
    · exact .inl (ready_rearm session label hready)
    · by_cases hop : op = .call (.send2 msg)
      · subst hop
        exact .inr (.inr (by simp [hexec.send2_ops]))
      · exact .inr (.inl ⟨msg, mem_rest hstack hmem hop⟩)
    · by_cases hop : op = .enableWrite
      · subst hop
        exact .inl (ready_enableWrite hecho.flushes hexec hsession (.inl ⟨current_of_unread hunread, hin⟩))
      · exact .inr (.inr (mem_rest hstack hmem hop))

end Run

theorem Echoing.step (hn : n.Echoing) (hunstranded : n.Unstranded) (hstacked : n.session.Stacked)
    (hb : n.session.conn.sendBuffer.Ok) (hecho : n.Echoes action) (h : n.step action = some n') :
    n'.Echoing := by
  have hflushing := hn.flushing.step hb hecho.flushes h
  refine ⟨hflushing.events, fun hdone hstate hunread => ?_, hflushing.listening, hflushing.buffered, ?_⟩
  · cases moves_of_step h with
    | arrive | fin | drain => exact .inl rfl
    | epollWait => simpa using Session.mem_handleEvent hdone
    | run hanswer hsession =>
        rcases run_cases hanswer hsession with ⟨-, f, rfl, -⟩ | ⟨op, rest, conn, ops, hstack, hexec, rfl⟩
        · exact hecho.elim
        · exact hn.rearm_run hunstranded.listening hstack hexec hecho (unread_of_answer hanswer hunread).1
            hdone hstate rfl
  · cases moves_of_step h with
    | arrive | fin | drain => exact hn.answering
    | epollWait hidle => exact hn.answering.handleEvent hidle _
    | run _ hsession => exact hn.answering.step hstacked hecho.session hsession

theorem echoing_of_reachable (hn : Machine.Reachable Endpoint.step Echoes Fresh n) :
    n.Unstranded ∧ n.Echoing := by
  induction hn with
  | init hn => exact ⟨hn.unstranded, hn.echoing⟩
  | step hn hecho h ih =>
      obtain ⟨hunstranded, hechoing⟩ := ih
      have hsession := session_of_reachable hn
      have hstacked := Session.stacked_of_reachable hsession
      exact ⟨hunstranded.step (Session.delivering_of_reachable hsession) (hechoing.rearmed hstacked) h,
        hechoing.step hunstranded hstacked (Session.buffer_ok_of_reachable hsession) hecho h⟩

theorem soft_of_reachable (hn : Machine.Reachable Endpoint.step Echoes Fresh n) :
    Machine.Reachable Session.step Session.Soft Session.Fresh n.session := by
  refine hn.map Endpoint.session (fun n hn => .init hn.session) fun n action n' _ hecho h => ?_
  rcases session_step h with hsame | ⟨events, hstep⟩ | ⟨label, full, rfl, -, hstep⟩
  · exact .inl hsame
  · exact .inr ⟨.event events, rfl, hstep⟩
  · refine .inr ⟨label, ?_, hstep⟩
    cases label with
    | write => exact hecho
    | _ => rfl

/-- **The echo server answers everything it received.** When its open connection is at rest, not announced
and able to send, then it has read everything, the send buffer is empty, and the bytes that the kernel
took are, in order, one frame of type STRING with the same body for each whole frame received. -/
theorem echo_complete (hn : Machine.Reachable Endpoint.step Echoes Fresh n)
    (hstate : n.session.conn.state = .connected) (hidle : n.session.stack = [])
    (hready : n.item.ready = false) (hfull : n.socket.sendFull = false) :
    n.socket.recvQueue = [] ∧ n.session.conn.sendBuffer.readable = [] ∧
      n.session.history.wire = (bodies tlv n.socket.received).flatMap frameBytes := by
  obtain ⟨hunstranded, hechoing⟩ := echoing_of_reachable hn
  have hsession := session_of_reachable hn
  have hqueue : n.socket.recvQueue = [] := by
    have hflag := ((Session.delivering_of_reachable hsession).idle hidle).1
    by_contra hrest
    rcases hunstranded.owed hstate (.inl hrest) with h | howes
    · exact absurd (hready.symm.trans h) Bool.false_ne_true
    · simp [Owes, hidle, hflag] at howes
  have hbuffer : n.session.conn.sendBuffer.readable = [] := by
    by_contra hrest
    have hbuffered := hechoing.buffered hrest
    simp [hready, hfull, hidle] at hbuffered
  have hsent : n.session.history.sent = bodies tlv n.socket.received := by
    have hanswered := hechoing.answering.answered hstate
    rw [hidle, List.flatMap_nil, List.append_nil] at hanswered
    rw [hanswered, (Session.idle_of_reachable hsession hidle).2.2, received_of_reachable hn, hqueue,
      List.append_nil]
  refine ⟨hqueue, hbuffer, ?_⟩
  have hshort : ∀ msg ∈ n.session.history.sent, msg.length ≤ maxTlvLength := fun msg hmsg =>
    Session.length_le_of_mem_bodies (hsent ▸ hmsg)
  rw [Session.wire_of_flushed (soft_of_reachable hn) hidle hbuffer hshort, hsent]

set_option maxRecDepth 10000 in
/-- Two messages in one segment, the second one empty. -/
theorem echo_complete_burst : ∃ n : Endpoint, Machine.Reachable Endpoint.step Echoes Fresh n ∧
    n.socket.received = [0, 0, 0, 9, 0, 0, 0, 1, 7, 0, 0, 0, 0, 0, 0, 0, 0] ∧
      n.session.history.wire = (bodies tlv n.socket.received).flatMap frameBytes := by
  have hfresh := fresh_connectionEstablished 0 5 .invalid false ⟨[], false, false, []⟩ rfl
  obtain ⟨n, hrun, hstate, hidle, hready, hfull, hreceived⟩ : ∃ n,
      Machine.run Endpoint.step Echoes {
          session := .new (((Connection.new 0 5 .invalid false
            true).setCloseCallback.setMessageCallback).connectionEstablished true)
          socket := ⟨[], false, false, []⟩
          item := ⟨⟨true, true, false, false, false, false, true⟩, false⟩ }
        [.arrive [0, 0, 0, 9, 0, 0, 0, 1, 7, 0, 0, 0, 0, 0, 0, 0, 0], .epollWait, .run .tau false,
          .run (.read 8 (.data [0, 0, 0, 9, 0, 0, 0, 1])) false, .run (.read 1 (.data [7])) false,
          .run (.onMessage [.send2 [7]]) false, .run .tau false, .run (.epollCtl true) false,
          .run .tau false, .epollWait, .run .tau false,
          .run (.read 8 (.data [0, 0, 0, 0, 0, 0, 0, 0])) false, .run (.read 0 (.data [])) false,
          .run (.onMessage [.send2 []]) false, .run .tau false, .run (.epollCtl true) false,
          .run .tau false,
          .run (.write [0, 0, 0, 0, 0, 0, 0, 1, 7, 0, 0, 0, 0, 0, 0, 0, 0] (.accepted 4)) false,
          .drain, .epollWait,
          .run (.write [0, 0, 0, 1, 7, 0, 0, 0, 0, 0, 0, 0, 0] (.accepted 13)) false] = some n ∧
      n.session.conn.state = .connected ∧ n.session.stack = [] ∧ n.item.ready = false ∧
      n.socket.sendFull = false ∧
      n.socket.received = [0, 0, 0, 9, 0, 0, 0, 1, 7, 0, 0, 0, 0, 0, 0, 0, 0] :=
    ⟨_, rfl, rfl, rfl, rfl, rfl, rfl⟩
  have hn : Machine.Reachable Endpoint.step Echoes Fresh n := .run (.init hfresh) hrun
  exact ⟨n, hn, hreceived, (echo_complete hn hstate hidle hready hfull).2.2⟩

end Endpoint

end EpollServer
