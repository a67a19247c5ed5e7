import EpollServer.EdgeTriggered
import EpollServer.Server

/-!
# The server and its network

The server together with the kernel's side of its connections: the sockets, and whether the epoll item of each
is ready. The peers and the network change the sockets at any time. What the server leaves to the environment,
the kernel decides here: `epoll_wait` returns ready items, with the events that hold, and a `read` or a `write`
is answered by the socket that the descriptor denotes at that moment.
-/

namespace EpollServer

/-- What a peer and the network do to a socket. -/
inductive Peer where
  | arrive (bytes : List UInt8)
  | fin
  /-- The full send queue has regained space. -/
  | drain
  deriving DecidableEq, Repr

def Socket.peer (k : Socket) (event : Peer) : Option Socket :=
  match event with
  | .arrive bytes =>
      if bytes ≠ [] ∧ k.fin = false then
        some { k with recvQueue := k.recvQueue ++ bytes, received := k.received ++ bytes }
      else none
  | .fin => if k.fin = false then some { k with fin := true } else none
  | .drain => if k.sendFull = true then some { k with sendFull := false } else none

structure Network where
  server : Server
  /-- The sockets, in the order in which `accept4` returns them. -/
  sockets : Nat → Socket
  /-- Whether the item of a socket is ready. It means nothing while the socket is in no epoll set. -/
  ready : Nat → Bool

namespace Network

inductive Action where
  | peer (k : Nat) (event : Peer)
  /-- A step of a thread; `full` is for its `write`. -/
  | thread (t : Nat) (move : Move) (full : Bool)
  deriving DecidableEq, Repr

variable (n : Network)

/-- What `epoll_wait` of loop `l` returns of a descriptor whose item is ready: those events that it is registered
for which hold. -/
def poll (l : Nat) (fd : Fd) : Option EpollEvents := do
  let k ← n.server.files fd
  let entry ← n.server.epoll l fd
  if n.ready k then some ((n.sockets k).current.reported entry.2) else none

/-- Whether `epoll_wait` of loop `l` may return this. -/
def Announces (l : Nat) : Ready → Prop
  | .wakeup | .accept => True
  | .conn fd _ events => n.poll l fd = some events

instance (l : Nat) (item : Ready) : Decidable (n.Announces l item) :=
  item.casesOn (motive := fun item => Decidable (n.Announces l item)) (.isTrue trivial) (.isTrue trivial)
    fun fd _ events => inferInstanceAs (Decidable (n.poll l fd = some events))

/-- Whether a step is one of `epoll_wait` that returns the item of socket `k`, which is not ready then. -/
def returns (move : Move) (k : Nat) : Bool :=
  match move with
  | .epollWait ready => ready.any fun
      | .conn fd _ _ => decide (n.server.files fd = some k)
      | .wakeup | .accept => false
  | _ => false

/-- `epoll_ctl` with `ADD` or `MOD` in `UndateChannel`, for a connection that is now `slot`. -/
def undateChannel (slot : Slot) (ok : Bool) : Nat → Bool :=
  match n.server.files slot.fd with
  | some k =>
      let registered := (n.server.epoll slot.eventLoop slot.fd).isSome
      let item : EpollItem := ⟨.none, registered && n.ready k⟩
      Function.update n.ready k
        (item.ctl slot.session.conn.channel.listeningEvents (n.sockets k).current ok).ready
  | none => n.ready

/-- The items that are ready after a thread has gone on and the server is `server`. -/
def rearm (effect : Effect) (server : Server) : Nat → Bool :=
  match effect with
  | .construct c _ _ _ ok | .session c (.epollCtl ok) _ => n.undateChannel (server.slots c) ok
  | .establish c ok =>
      if (n.server.slots c).stage = .enableRead then n.undateChannel (server.slots c) ok else n.ready
  | _ => n.ready

/-- The sockets after a thread has gone on, if the kernel may answer so. A call on a descriptor that denotes
nothing fails. -/
def answer (effect : Effect) (full : Bool) : Option (Nat → Socket) :=
  match effect with
  | .session c (.read count r) _ =>
      match n.server.files (n.server.slots c).fd with
      | some k => ((n.sockets k).read count r).map (Function.update n.sockets k)
      | none => if r.isHard then some n.sockets else none
  | .session c (.write bytes r) _ =>
      match n.server.files (n.server.slots c).fd with
      | some k => some (Function.update n.sockets k ((n.sockets k).write bytes.length r full))
      | none => if r.isHard then some n.sockets else none
  | _ => some n.sockets

/-- What `epoll_wait` may return. -/
def Waits (t : Nat) : Move → Prop
  | .epollWait ready => ∀ item ∈ ready, n.Announces t item
  | _ => True

instance (t : Nat) (move : Move) : Decidable (n.Waits t move) := by
  unfold Waits
  split <;> infer_instance

/-- The state after thread `t` has gone on, and the kernel has answered. -/
def after (t : Nat) (move : Move) (o : Outcome) (sockets : Nat → Socket) : Network where
  server := n.server.after t o
  sockets := sockets
  ready k := n.rearm o.effect (n.server.after t o) k && !n.returns move k

def step (action : Action) : Option Network :=
  match action with
  | .peer k event => do
      let socket ← (n.sockets k).peer event
      some { n with
        sockets := Function.update n.sockets k socket
        ready := Function.update n.ready k true }
  | .thread t move full =>
      if t ≤ n.server.threadNums ∧ n.Waits t move then do
        let o ← n.server.control t move
        let sockets ← n.answer o.effect full
        some (n.after t move o sockets)
      else none

/-- The server with `threadNums` sub reactors, whose peers have not sent anything. -/
def start (threadNums : Nat) : Network where
  server := .start threadNums id id
  sockets _ := ⟨[], false, false, []⟩
  ready _ := false

end Network

end EpollServer
