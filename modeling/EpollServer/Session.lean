import EpollServer.Connection
import EpollServer.Lib.Machine

/-!
# Sessions

A connection together with the work its loop thread has pending on it, as a step machine. Each step runs
the top operation of the stack, and its label is what the step shows to the outside: the system call it
makes with the result the kernel gave, a callback, or nothing. A message callback may use the connection:
its label carries the calls it makes, so that every callback is some sequence of such labels.

`History` records what the results are stated about; the code never reads it.
-/

namespace EpollServer

inductive Label where
  /-- `Channel::HandleEvent` with these ready events. -/
  | event (events : EpollEvents)
  /-- A call from code that runs on the loop thread. -/
  | call (f : Call)
  | tau
  | read (count : Nat) (r : ReadResult)
  | write (bytes : List UInt8) (r : WriteResult)
  | epollCtl (ok : Bool)
  | onMessage (calls : List Call)
  | onClose
  deriving DecidableEq, Repr

/-- Run one operation; the label has to be one that the operation can show. -/
def Op.exec (c : Connection) (op : Op) (label : Label) : Option (Connection × List Op) :=
  match op, label with
  | .call (.send msg room), .write bytes r =>
      if c.sendBuffer.readableBytes = 0 ∧ Connection.sendResponse msg room = some bytes ∧
          r.count ≤ bytes.length then
        c.afterWrite bytes r
      else none
  | .call (.send msg room), .tau =>
      if c.sendBuffer.readableBytes = 0 then none
      else do
        let bytes ← Connection.sendResponse msg room
        c.bufferRemaining bytes 0
  | .call (.send2 msg), .tau => c.send2 msg
  | .call (.sendWithTwoSysCall msg), .tau => some (c, Connection.sendWithTwoSysCall msg)
  | .call .handleClose, .tau => some (c, [.handleClose])
  -- with a negative `response_len`, `write` is asked for more bytes than there are
  | .sendInternal msg, .write bytes r =>
      if c.sendBuffer.readableBytes = 0 ∧ 0 ≤ CInt.ofSize msg.length ∧
          bytes = Connection.internalResponse msg ∧ r.count ≤ bytes.length then
        c.afterWrite bytes r
      else none
  | .sendInternal msg, .tau =>
      if c.sendBuffer.readableBytes = 0 then none
      else c.bufferRemaining (Connection.internalResponse msg) 0
  | .handleMessage, .tau => some (c, [.readNonBlocking, .messageReady])
  | .readNonBlocking, .read count r =>
      if count = c.readCount ∧ r.bytes.length ≤ count then some (c.readNonBlocking r) else none
  | .messageReady, .tau => if c.hasMessage then none else some (c, [])
  | .messageReady, .onMessage calls =>
      if c.hasMessage then some (c, calls.map .call ++ [.messageDone]) else none
  | .messageDone, .tau => some (c.messageDone, [])
  | .handleClose, .tau => some c.handleClose
  | .onClose, .onClose => some (c, [])
  | .handleWrite, .write bytes r =>
      if bytes = c.sendBuffer.readable ∧ r.count ≤ bytes.length then c.writeNonBlocking r else none
  | .retrieveNone, .tau => c.retrieve 0
  | .enableWrite, .epollCtl ok => some ({ c with channel := c.channel.enableWrite ok }, [])
  | _, _ => none

/-- What happened on a connection so far. -/
structure History where
  /-- The bytes that `read` returned. -/
  consumed : List UInt8
  /-- Whether a `read` reported the end of the stream. -/
  atEof : Bool
  /-- The contents of `ReadBuffer()` in the calls of the message callback. -/
  seen : List (List UInt8)
  /-- The messages whose sending began. -/
  sent : List (List UInt8)
  /-- The bytes that `write` took. -/
  wire : List UInt8
  /-- The number of calls of the close callback. -/
  closes : Nat
  deriving DecidableEq, Repr

namespace History

def new : History where
  consumed := []
  atEof := false
  seen := []
  sent := []
  wire := []
  closes := 0

/-- The message that an operation starts to send. -/
def starts : Op → List (List UInt8)
  | .call (.send msg _) | .call (.send2 msg) | .call (.sendWithTwoSysCall msg) => [msg]
  | _ => []

/-- The history after an operation of `c` ran with a label. -/
def record (h : History) (c : Connection) (op : Op) (label : Label) : History :=
  let h := { h with sent := h.sent ++ starts op }
  match label with
  | .read count r =>
      { h with
        consumed := h.consumed ++ r.bytes
        atEof := h.atEof || (decide (0 < count) && r == .data []) }
  | .write bytes r => { h with wire := h.wire ++ bytes.take r.count }
  | .onMessage _ => { h with seen := h.seen ++ [c.readBuffer] }
  | .onClose => { h with closes := h.closes + 1 }
  | _ => h

end History

structure Session where
  conn : Connection
  stack : List Op
  history : History
  deriving Repr

namespace Session

/-- A connection that nothing happened on yet. -/
def new (c : Connection) : Session where
  conn := c
  stack := []
  history := .new

/-- `SetReadyEvents` and `HandleEventWithGuard` on an idle session. -/
def handleEvent (s : Session) (events : EpollEvents) : Session :=
  let conn := { s.conn with channel := s.conn.channel.setReadyEvents events }
  { s with conn := conn, stack := conn.handleEventWithGuard }

def step (s : Session) (label : Label) : Option Session :=
  match s.stack with
  | [] =>
      match label with
      | .event events => some (s.handleEvent events)
      | .call f => some { s with stack := [.call f] }
      | _ => none
  | op :: rest => do
      let (conn, ops) ← op.exec s.conn label
      some { s with conn := conn, stack := ops ++ rest, history := s.history.record s.conn op label }

/-- **What a step can do.** -/
theorem step_cases {s s' : Session} {label : Label} (h : s.step label = some s') :
    (s.stack = [] ∧ ∃ events, label = .event events ∧ s' = s.handleEvent events) ∨
    (s.stack = [] ∧ ∃ f, label = .call f ∧ s' = { s with stack := [.call f] }) ∨
    ∃ op rest conn ops, s.stack = op :: rest ∧ op.exec s.conn label = some (conn, ops) ∧
      s' = { s with
        conn := conn, stack := ops ++ rest, history := s.history.record s.conn op label } := by
  unfold step at h
  cases hstack : s.stack with
  | nil =>
      rw [hstack] at h
      cases label with
      | event events => exact .inl ⟨rfl, events, rfl, (Option.some.inj h).symm⟩
      | call f => exact .inr (.inl ⟨rfl, f, rfl, (Option.some.inj h).symm⟩)
      | tau | read | write | epollCtl | onMessage | onClose => cases h
  | cons op rest =>
      rw [hstack] at h
      obtain ⟨⟨conn, ops⟩, hexec, heq⟩ := Option.bind_eq_some_iff.mp h
      exact .inr (.inr ⟨op, rest, conn, ops, rfl, hexec, (Option.some.inj heq).symm⟩)

/-- The step that runs the top operation. -/
theorem step_of_exec {s : Session} {op : Op} {rest ops : List Op} {conn : Connection} {label : Label}
    (hstack : s.stack = op :: rest) (hexec : op.exec s.conn label = some (conn, ops)) :
    s.step label = some { s with
      conn := conn, stack := ops ++ rest, history := s.history.record s.conn op label } := by
  unfold step
  rw [hstack]
  exact Option.bind_eq_some_iff.mpr ⟨_, hexec, rfl⟩

end Session

end EpollServer
