import EpollServer.Channel
import Mathlib.Logic.Function.Basic

/-!
# Epoll sets and the channels in them

`Epoller::UndateChannel` and `Epoller::DeleteChannel` together with the kernel's side of `epoll_ctl`: a table
for each loop that maps a descriptor to the channel in `data.ptr` and the registered events. The kernel
answers by its own rules, and a call that fails changes nothing.
-/

namespace EpollServer

/-- What `epoll_ctl` returned: 0, or -1 with an `errno`. -/
inductive CtlResult where
  | ok
  | eexist
  | enoent
  /-- `ENOMEM` or `ENOSPC`. -/
  | exhausted
  deriving DecidableEq, Repr

def CtlResult.isOk : CtlResult → Bool
  | .ok => true
  | _ => false

/-- The items of an epoll set: `data.ptr` and the registered events. -/
abbrev EpollTable (ι : Type*) := Fd → Option (ι × EpollEvents)

variable {ι : Type*}

/-- `epoll_ctl`, if the kernel may answer so. -/
def EpollTable.ctl (table : EpollTable ι) (op : EpollCtl) (fd : Fd) (event : ι × EpollEvents)
    (r : CtlResult) : Option (EpollTable ι) :=
  match op, r with
  | .add, .ok => if table fd = none then some (Function.update table fd (some event)) else none
  | .mod, .ok => if table fd = none then none else some (Function.update table fd (some event))
  | .del, .ok => if table fd = none then none else some (Function.update table fd none)
  | .add, .eexist => if table fd = none then none else some table
  | .mod, .enoent | .del, .enoent => if table fd = none then some table else none
  | .add, .exhausted | .mod, .exhausted => some table
  | _, _ => none

/-- The member functions of a channel that call its loop. -/
inductive Channel.Request where
  | enableET
  | enableRead
  | enableWrite
  | deleteChannel
  deriving DecidableEq, Repr

namespace Channel

/-- The channel after the call, given whether `epoll_ctl` succeeded. -/
def request (chan : Channel) (f : Request) (ok : Bool) : Channel :=
  match f with
  | .enableET => chan.enableET ok
  | .enableRead => chan.enableRead ok
  | .enableWrite => chan.enableWrite ok
  | .deleteChannel => chan.deleteChannel ok

/-- The operation that the call asks the kernel for. -/
def requestCtl (chan : Channel) (f : Request) : EpollCtl :=
  match f with
  | .enableET | .enableRead | .enableWrite => chan.ctl
  | .deleteChannel => .del

end Channel

/-- Channels of some loops, and the epoll sets of these loops. -/
structure Epollers (ι : Type*) where
  channels : ι → Channel
  /-- The `event_loop` of each channel. -/
  eventLoop : ι → Nat
  epoll : Nat → EpollTable ι

namespace Epollers

/-- The item of a channel's descriptor in the set of its loop. -/
def item (s : Epollers ι) (i : ι) : Option (ι × EpollEvents) :=
  s.epoll (s.eventLoop i) (s.channels i).clientFd

/-- A call on channel `i`, whose `epoll_ctl` returns `r`. -/
def step [DecidableEq ι] (s : Epollers ι) (call : ι × Channel.Request × CtlResult) : Option (Epollers ι) := do
  let (i, f, r) := call
  let chan := (s.channels i).request f r.isOk
  let table ← (s.epoll (s.eventLoop i)).ctl ((s.channels i).requestCtl f) chan.clientFd
    (i, chan.listeningEvents) r
  some { s with
    channels := Function.update s.channels i chan
    epoll := Function.update s.epoll (s.eventLoop i) table }

/-- Channels just constructed, with open descriptors that are distinct and in none of the sets. -/
structure Fresh (s : Epollers ι) : Prop where
  new : ∀ i, ∃ fd tied, s.channels i = .new fd tied
  distinct : ∀ i j, (s.channels i).clientFd = (s.channels j).clientFd → i = j
  absent : ∀ i, s.item i = none

end Epollers

end EpollServer
