import Mathlib.Data.List.Basic

/-!
# System calls as the code sees them

Results of `read` and `write`, the event sets of `epoll`, and the three `epoll_ctl` operations.
-/

namespace EpollServer

abbrev Fd := Nat

/-- The values of `errno` that the code tells apart. -/
inductive Errno where
  | eagain
  | ewouldblock
  | eintr
  | other (code : Nat)
  deriving DecidableEq, Repr

/-- `EAGAIN` or `EWOULDBLOCK`. -/
def Errno.isAgain : Errno → Bool
  | .eagain | .ewouldblock => true
  | _ => false

/-- The errors after which a write is tried again later. -/
def Errno.isRetry : Errno → Bool
  | .other _ => false
  | _ => true

/-- What `read` returned: the bytes it stored, none of them for a return value of 0, or -1. -/
inductive ReadResult where
  | data (bytes : List UInt8)
  | error (errno : Errno)
  deriving DecidableEq, Repr

def ReadResult.bytes : ReadResult → List UInt8
  | .data bytes => bytes
  | .error _ => []

/-- A failure that is not one of `EAGAIN`, `EWOULDBLOCK`, `EINTR`. -/
def ReadResult.isHard : ReadResult → Bool
  | .data _ => false
  | .error errno => !errno.isRetry

/-- What `write` returned: the number of bytes the kernel took, or -1. -/
inductive WriteResult where
  | accepted (count : Nat)
  | error (errno : Errno)
  deriving DecidableEq, Repr

def WriteResult.count : WriteResult → Nat
  | .accepted count => count
  | .error _ => 0

/-- A failure that is not one of `EAGAIN`, `EWOULDBLOCK`, `EINTR`. -/
def WriteResult.isHard : WriteResult → Bool
  | .accepted _ => false
  | .error errno => !errno.isRetry

/-- A set of epoll events, one flag for each bit that the code uses. -/
structure EpollEvents where
  epollin : Bool
  epollpri : Bool
  epollout : Bool
  epollrdhup : Bool
  epollerr : Bool
  epollhup : Bool
  epollet : Bool
  deriving DecidableEq, Repr

namespace EpollEvents

def none : EpollEvents := ⟨false, false, false, false, false, false, false⟩

/-- Bitwise or. -/
def union (a b : EpollEvents) : EpollEvents where
  epollin := a.epollin || b.epollin
  epollpri := a.epollpri || b.epollpri
  epollout := a.epollout || b.epollout
  epollrdhup := a.epollrdhup || b.epollrdhup
  epollerr := a.epollerr || b.epollerr
  epollhup := a.epollhup || b.epollhup
  epollet := a.epollet || b.epollet

/-- `events & (EPOLLIN | EPOLLPRI | EPOLLRDHUP)`. -/
def isReadable (events : EpollEvents) : Bool :=
  events.epollin || events.epollpri || events.epollrdhup

/-- `events & EPOLLOUT`. -/
def isWritable (events : EpollEvents) : Bool := events.epollout

/-- What `epoll_wait` reports of the current events: those asked for, and the two error events, which
are always reported. -/
def reported (current registered : EpollEvents) : EpollEvents where
  epollin := current.epollin && registered.epollin
  epollpri := current.epollpri && registered.epollpri
  epollout := current.epollout && registered.epollout
  epollrdhup := current.epollrdhup && registered.epollrdhup
  epollerr := current.epollerr
  epollhup := current.epollhup
  epollet := false

end EpollEvents

/-- The operations of `epoll_ctl`. -/
inductive EpollCtl where
  | add
  | mod
  | del
  deriving DecidableEq, Repr

end EpollServer
