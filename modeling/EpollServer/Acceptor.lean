import EpollServer.Server

/-!
# The acceptor and its listen queue

The server together with the kernel's side of the listening socket. The connections that clients have
established wait in the listen queue, and each call of `Accept` takes at most one of them with `accept4`. An
item of an epoll set is in its ready list once there was something to report; without `EPOLLET` it stays there
for as long as there is.
-/

namespace EpollServer

/-- `EVENT_NUM`. -/
def eventNum : Nat := 4096

/-- `accept_channel` after the constructor of `Acceptor`; `tied` is what the member happens to hold. -/
def acceptChannel (listenedFd : Fd) (tied ok : Bool) : Channel := (Channel.new listenedFd tied).enableRead ok

structure Listener where
  server : Server
  acceptChannel : Channel
  /-- The item of the channel is in the ready list. -/
  ready : Bool
  /-- The connections in the listen queue. -/
  queue : List Nat
  /-- The number of connections that clients have established so far. -/
  established : Nat
  /-- The connections that `accept4` took off the queue, and whether it returned a descriptor. -/
  taken : List (Nat × Bool)
  /-- How often `accept4` failed and took nothing. -/
  failures : Nat

namespace Listener

inductive Action where
  /-- A client establishes a connection. -/
  | establish
  /-- A step of a thread of the server. If it is a call of `accept4` that fails, `aborted` tells whether it
  took a connection off the queue that the client had given up. -/
  | run (thread : Nat) (move : Move) (aborted : Bool)
  deriving DecidableEq, Repr

variable (l : Listener)

/-- The listening socket is to be reported. -/
def Due : Prop := l.ready = true ∧ l.queue ≠ []

instance : Decidable l.Due := by
  unfold Due
  infer_instance

/-- `epoll_wait` of the main reactor, if it may return these channels: the listening socket is among them if it
is to be reported, unless as many others are as fit. -/
def epollWait (ready : List Ready) : Option Listener :=
  if .accept ∈ ready then
    if l.Due then some { l with ready := !l.acceptChannel.listeningEvents.epollet } else none
  else if l.Due ∧ ready.length < eventNum then none
  else some l

/-- `accept4` takes the first connection off the queue. -/
def take (accepted : Bool) : Option Listener :=
  match l.queue with
  | [] => none
  | client :: rest => some { l with queue := rest, taken := l.taken ++ [(client, accepted)] }

/-- What a step of a thread does to the listening socket, if the kernel may answer so. -/
def answer (thread : Nat) (move : Move) (aborted : Bool) : Option Listener :=
  match move with
  | .epollWait ready => if thread = 0 then l.epollWait ready else some l
  | .accept (some _) => l.take true
  | .accept none => if aborted then l.take false else some { l with failures := l.failures + 1 }
  | _ => some l

def step (action : Action) : Option Listener :=
  match action with
  | .establish => some { l with
      queue := l.queue ++ [l.established]
      established := l.established + 1
      ready := l.ready || l.acceptChannel.inEpoll && l.acceptChannel.listeningEvents.epollin }
  | .run thread move aborted => do
      let server ← l.server.step (thread, move)
      let l ← l.answer thread move aborted
      some { l with server := server }

/-- No client has connected yet. -/
structure Fresh : Prop where
  server : l.server.Fresh
  acceptChannel : ∃ listenedFd tied ok, l.acceptChannel = EpollServer.acceptChannel listenedFd tied ok
  ready : l.ready = false
  queue : l.queue = []
  established : l.established = 0
  taken : l.taken = []
  failures : l.failures = 0

end Listener

end EpollServer
