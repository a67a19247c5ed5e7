import EpollServer.EventLoop

/-!
# One event loop and the threads that use it

The thread that runs `Start`, at any point of it, and any number of threads inside `QueueOneFunc`. A step
is one thread's next step; steps of different threads interleave in any order.
-/

namespace EpollServer

/-- A ready channel: the one of the eventfd, or another one. -/
inductive ReadyChannel where
  | wakeup
  | other
  deriving DecidableEq, Repr

/-- Where the thread is in `Start`. -/
inductive LoopPc (τ : Type) where
  | epollWait
  /-- Between two calls of `HandleEvent`, with the rest of the batch. -/
  | batch (rest : List ReadyChannel)
  /-- Inside the `HandleEvent` of another channel. -/
  | handler (rest : List ReadyChannel)
  /-- In `HandleToDoList` before the swap. -/
  | swap
  /-- In `HandleToDoList` between two functions, with the rest of `funcs`. -/
  | funcs (rest : List τ)
  /-- Inside a function. -/
  | func (rest : List τ)
  /-- The assert in `HandleRead` failed. -/
  | aborted
  deriving DecidableEq, Repr

/-- Whether code of handlers or tasks runs, which may call `QueueOneFunc`. -/
def LoopPc.inside {τ : Type} : LoopPc τ → Bool
  | .handler _ | .func _ => true
  | _ => false

structure Reactor (τ : Type) where
  loop : EventLoop τ
  /-- The thread that runs `Start`. -/
  runner : Tid
  pc : LoopPc τ
  /-- The threads between the two halves of `QueueOneFunc`. -/
  queueing : Tid → Bool
  /-- The functions that were pushed, in this order. -/
  queued : List τ
  /-- The functions that were run, in this order, with the thread that ran them. -/
  ran : List (Tid × τ)

namespace Reactor

variable {τ : Type}

inductive Action (τ : Type) where
  | emplaceBack (current : Tid) (cb : τ)
  | wakeup (current : Tid)
  | epollWait (ready : List ReadyChannel)
  | handleEvent
  | handled
  | handleToDoList
  | swap
  | runFunc
  | funcDone
  | funcsDone
  deriving Repr

/-- What `epoll_wait` may return: each item at most once, and the eventfd, which is level-triggered, only
while its counter is positive. -/
def Reports (loop : EventLoop τ) (ready : List ReadyChannel) : Prop :=
  ready.count .wakeup ≤ 1 ∧ (.wakeup ∈ ready → 0 < loop.wakeupEvent)

instance (loop : EventLoop τ) (ready : List ReadyChannel) : Decidable (Reports loop ready) := by
  unfold Reports
  infer_instance

/-- One step. The local vector of `HandleToDoList` goes out of scope together with `funcsDone`: what the
functions hold puts nothing into a queue when it is destroyed. -/
def step (s : Reactor τ) (action : Action τ) : Option (Reactor τ) :=
  match action with
  | .emplaceBack current cb =>
      if s.queueing current = false ∧ (current = s.runner → s.pc.inside = true) then
        some { s with
          loop := s.loop.emplaceBack cb
          queueing := Function.update s.queueing current true
          queued := s.queued ++ [cb] }
      else none
  | .wakeup current =>
      if s.queueing current = true then
        some { s with
          loop := s.loop.wakeup current
          queueing := Function.update s.queueing current false }
      else none
  | .epollWait ready =>
      match s.pc with
      | .epollWait => if Reports s.loop ready then some { s with pc := .batch ready } else none
      | _ => none
  | .handleEvent =>
      match s.pc with
      | .batch (.wakeup :: rest) =>
          some { s with
            loop := s.loop.handleRead.1
            pc := if s.loop.handleRead.2 then .batch rest else .aborted }
      | .batch (.other :: rest) => some { s with pc := .handler rest }
      | _ => none
  | .handled =>
      match s.pc with
      | .handler rest => if s.queueing s.runner = false then some { s with pc := .batch rest } else none
      | _ => none
  | .handleToDoList =>
      match s.pc with
      | .batch [] => some { s with loop := s.loop.setCallingFuncs true, pc := .swap }
      | _ => none
  | .swap =>
      match s.pc with
      | .swap => some { s with loop := s.loop.swap.1, pc := .funcs s.loop.swap.2 }
      | _ => none
  | .runFunc =>
      match s.pc with
      | .funcs (cb :: rest) =>
          some { s with pc := .func rest, ran := s.ran ++ [(s.runner, cb)] }
      | _ => none
  | .funcDone =>
      match s.pc with
      | .func rest => if s.queueing s.runner = false then some { s with pc := .funcs rest } else none
      | _ => none
  | .funcsDone =>
      match s.pc with
      | .funcs [] => some { s with loop := s.loop.setCallingFuncs false, pc := .epollWait }
      | _ => none

/-- A new loop whose `tid_` is the id of the thread that runs it, before its first `epoll_wait`. -/
structure Fresh (s : Reactor τ) : Prop where
  loop : s.loop = .new s.runner
  pc : s.pc = .epollWait
  queueing : ∀ current, s.queueing current = false
  queued : s.queued = []
  ran : s.ran = []

end Reactor

end EpollServer
