import EpollServer.Session

/-!
# One connection under edge-triggered epoll

A session together with the kernel's side of it: the socket and the item of the epoll set. The peer and
the network add bytes and the end of the stream, and make room in the send queue; the loop thread takes
the item when it is ready and runs the handlers, one system call at a time.
-/

namespace EpollServer

structure Socket where
  recvQueue : List UInt8
  /-- Whether the peer has ended the stream. -/
  fin : Bool
  /-- Whether the send queue lacks the room to count as writable. -/
  sendFull : Bool
  /-- All bytes that arrived so far. -/
  received : List UInt8
  deriving DecidableEq, Repr

namespace Socket

/-- The events that hold at the moment. -/
def current (k : Socket) : EpollEvents :=
  { EpollEvents.none with
    epollin := !k.recvQueue.isEmpty || k.fin
    epollout := !k.sendFull
    epollrdhup := k.fin }

/-- A `read` of `count` bytes that returns `r`, if the kernel may answer so: with the next bytes of the
queue, in any number; with 0 at the end of the stream or when no bytes are asked for; with `EAGAIN` when
there is nothing to read. -/
def read (k : Socket) (count : Nat) (r : ReadResult) : Option Socket :=
  match r with
  | .data [] =>
      if count = 0 ∨ k.recvQueue = [] ∧ k.fin = true then some k else none
  | .data bytes =>
      if bytes = k.recvQueue.take bytes.length then
        some { k with recvQueue := k.recvQueue.drop bytes.length }
      else none
  | .error .eintr => some k
  | .error errno =>
      if count = 0 then none
      else if errno.isAgain ∧ (k.recvQueue ≠ [] ∨ k.fin = true) then none
      else some k

/-- A `write` of `len` bytes. One that the queue does not take whole leaves it full, and so may one that
it takes. -/
def write (k : Socket) (len : Nat) (r : WriteResult) (full : Bool) : Socket :=
  match r with
  | .accepted count => { k with sendFull := k.sendFull || full || decide (count < len) }
  | .error errno => if errno.isAgain then { k with sendFull := true } else k

/-- **What a `read` can do**: it takes its bytes from the front of the receive queue, and `EAGAIN` says
that there is nothing to take. -/
theorem read_spec {k k' : Socket} {count : Nat} {r : ReadResult} (h : k.read count r = some k') :
    k.recvQueue = r.bytes ++ k'.recvQueue ∧ k' = { k with recvQueue := k'.recvQueue } ∧
      ∀ errno, r = .error errno → errno.isAgain = true → k.recvQueue = [] ∧ k.fin = false := by
  cases r with
  | data data =>
      cases data with
      | nil =>
          obtain ⟨-, h⟩ := Option.ite_none_right_eq_some.mp h
          cases h
          exact ⟨rfl, rfl, nofun⟩
      | cons b bs =>
          obtain ⟨hfront, h⟩ := Option.ite_none_right_eq_some.mp h
          cases h
          refine ⟨?_, rfl, nofun⟩
          exact (List.take_append_drop (b :: bs).length _).symm.trans
            (congrArg (· ++ k.recvQueue.drop (b :: bs).length) hfront.symm)
  | error errno =>
      cases errno with
      | eintr =>
          cases h
          exact ⟨rfl, rfl, by rintro errno ⟨⟩ ⟨⟩⟩
      | eagain | ewouldblock | other =>
          obtain ⟨-, h⟩ := Option.ite_none_left_eq_some.mp h
          obtain ⟨hnot, h⟩ := Option.ite_none_left_eq_some.mp h
          cases h
          refine ⟨rfl, rfl, ?_⟩
          rintro errno ⟨⟩ hagain
          obtain ⟨hqueue, hfin⟩ := not_or.mp fun hunread => hnot ⟨hagain, hunread⟩
          exact ⟨not_not.mp hqueue, Bool.eq_false_iff.mpr hfin⟩

@[simp]
theorem recvQueue_write (k : Socket) (len : Nat) (r : WriteResult) (full : Bool) :
    (k.write len r full).recvQueue = k.recvQueue := by
  cases r with
  | accepted => rfl
  | error errno => cases errno <;> rfl

@[simp]
theorem fin_write (k : Socket) (len : Nat) (r : WriteResult) (full : Bool) :
    (k.write len r full).fin = k.fin := by
  cases r with
  | accepted => rfl
  | error errno => cases errno <;> rfl

@[simp]
theorem received_write (k : Socket) (len : Nat) (r : WriteResult) (full : Bool) :
    (k.write len r full).received = k.received := by
  cases r with
  | accepted => rfl
  | error errno => cases errno <;> rfl

end Socket

/-- An item of the epoll set, registered with `EPOLLET`. -/
structure EpollItem where
  events : EpollEvents
  ready : Bool
  deriving DecidableEq, Repr

/-- `EPOLL_CTL_ADD` and `EPOLL_CTL_MOD`: the item is ready afterwards if one of its events holds. -/
def EpollItem.ctl (item : EpollItem) (events current : EpollEvents) (ok : Bool) : EpollItem :=
  if ok then
    { events := events, ready := item.ready || decide (current.reported events ≠ .none) }
  else item

structure Endpoint where
  session : Session
  socket : Socket
  item : EpollItem
  deriving Repr

namespace Endpoint

inductive Action where
  | arrive (bytes : List UInt8)
  | fin
  /-- The full send queue has regained space. -/
  | drain
  /-- `epoll_wait` reports the item and the loop dispatches it. -/
  | epollWait
  /-- The loop thread runs one operation; `full` is for its `write`. -/
  | run (label : Label) (full : Bool)
  deriving DecidableEq, Repr

/-- The socket after a step of the session, if the kernel may answer so. -/
def answer (n : Endpoint) (label : Label) (full : Bool) : Option Socket :=
  match label with
  | .event _ => none
  | .read count r => n.socket.read count r
  | .write bytes r => some (n.socket.write bytes.length r full)
  | _ => some n.socket

/-- The epoll item after a step of the session that leads to `session`. -/
def rearm (n : Endpoint) (session : Session) (label : Label) : EpollItem :=
  match label with
  | .epollCtl ok => n.item.ctl session.conn.channel.listeningEvents n.socket.current ok
  | _ => n.item

def step (n : Endpoint) (action : Action) : Option Endpoint :=
  match action with
  | .arrive bytes =>
      if bytes ≠ [] ∧ n.socket.fin = false then
        some { n with
          socket := { n.socket with
            recvQueue := n.socket.recvQueue ++ bytes
            received := n.socket.received ++ bytes }
          item := { n.item with ready := true } }
      else none
  | .fin =>
      if n.socket.fin = false then
        some { n with
          socket := { n.socket with fin := true }
          item := { n.item with ready := true } }
      else none
  | .drain =>
      if n.socket.sendFull = true then
        some { n with
          socket := { n.socket with sendFull := false }
          item := { n.item with ready := true } }
      else none
  | .epollWait =>
      if n.session.stack = [] ∧ n.item.ready = true then
        some { n with
          session := n.session.handleEvent (n.socket.current.reported n.item.events)
          item := { n.item with ready := false } }
      else none
  | .run label full => do
      let socket ← n.answer label full
      let session ← n.session.step label
      some { session := session, socket := socket, item := n.rearm session label }

/-- There are bytes, or the end of the stream, that no `read` has returned. -/
def Unread (n : Endpoint) : Prop := n.socket.recvQueue ≠ [] ∨ n.socket.fin = true

instance (n : Endpoint) : Decidable n.Unread := by
  unfold Unread
  infer_instance

end Endpoint

end EpollServer
