import Mathlib.Logic.Function.Basic

/-!
# The threads of the sub reactors

An `EventLoopThread` hands the address of an event loop from the thread that has constructed it to the one
that waits for it in `Start`, through a mutex and a condition variable. Both threads are cut at every
statement that uses the object. A thread in `cv.wait` may also wake up without a notification.
-/

namespace EpollServer

/-- The event loops of the program. `ThreadRunFunc` constructs two of them. -/
inductive LoopPtr where
  | mainReactor
  | loop1 (thread : Nat)
  | loop (thread : Nat)
  deriving DecidableEq, Repr

/-- The two threads that use an `EventLoopThread`. -/
inductive Side where
  | starter
  | runner
  deriving DecidableEq, Repr

/-- The statement of `Start` that is next. -/
inductive StartPc where
  | createThread
  | lock
  | test
  | wait
  /-- Blocked in `cv.wait`, without the mutex. -/
  | blocked
  /-- Woken up in `cv.wait`, and about to take the mutex again. -/
  | relock
  | read
  | unlock (currentLoop : Option LoopPtr)
  | returned (currentLoop : Option LoopPtr)
  deriving DecidableEq, Repr

/-- The statement of `ThreadRunFunc` that is next. -/
inductive RunPc where
  | absent
  | loop1
  | loop
  | lock
  | assign
  | notify
  | unlock
  | start
  /-- In `event_loop->Start()`, which does not return. -/
  | running (eventLoop : LoopPtr)
  deriving DecidableEq, Repr

structure EventLoopThread where
  eventLoop : Option LoopPtr
  /-- Who holds the mutex. -/
  mu : Option Side
  starter : StartPc
  runner : RunPc
  deriving DecidableEq, Repr

namespace EventLoopThread

/-- The object after its constructor, with `Start` called on it. -/
def new : EventLoopThread where
  eventLoop := none
  mu := none
  starter := .createThread
  runner := .absent

variable (t : EventLoopThread)

/-- The next statement of `Start`. -/
def advanceStart : Option EventLoopThread :=
  match t.starter with
  | .createThread => some { t with starter := .lock, runner := .loop1 }
  | .lock | .relock => if t.mu = none then some { t with mu := some .starter, starter := .test } else none
  | .test => some { t with starter := if t.eventLoop = none then .wait else .read }
  | .wait => some { t with mu := none, starter := .blocked }
  | .read => some { t with starter := .unlock t.eventLoop }
  | .unlock currentLoop => some { t with mu := none, starter := .returned currentLoop }
  | .blocked | .returned _ => none

/-- `cv.wait` returns without a notification. -/
def wakeSpuriously : Option EventLoopThread :=
  if t.starter = .blocked then some { t with starter := .relock } else none

/-- `cv.notify_one()`. -/
def notifyOne : EventLoopThread :=
  { t with starter := if t.starter = .blocked then .relock else t.starter }

/-- The next statement of `ThreadRunFunc` in the `i`-th thread. -/
def advanceRun (i : Nat) : Option EventLoopThread :=
  match t.runner with
  | .loop1 => some { t with runner := .loop }
  | .loop => some { t with runner := .lock }
  | .lock => if t.mu = none then some { t with mu := some .runner, runner := .assign } else none
  | .assign => some { t with eventLoop := some (.loop i), runner := .notify }
  | .notify => some { t.notifyOne with runner := .unlock }
  | .unlock => some { t with mu := none, runner := .start }
  | .start => t.eventLoop.map fun eventLoop => { t with runner := .running eventLoop }
  | .absent | .running _ => none

/-- The event loop that the next statement of `ThreadRunFunc` constructs. -/
def constructs (i : Nat) : Option LoopPtr :=
  match t.runner with
  | .loop1 => some (.loop1 i)
  | .loop => some (.loop i)
  | _ => none

end EventLoopThread

end EpollServer
