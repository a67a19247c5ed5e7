import EpollServer.Lib.Machine

/-!
# Event loops

The members of `EventLoop` that its task queue uses, and the steps of the functions on them. A function is
cut where another thread can come in between: `QueueOneFunc` into the push under the lock and the
conditional write to the eventfd, `HandleToDoList` into its assignments, the swap and the calls. The tasks
are of any type.
-/

namespace EpollServer

/-- A thread id, as `CurrentThread::tid()` returns it. -/
abbrev Tid := Nat

structure EventLoop (τ : Type) where
  toDoList : List τ
  callingFuncs : Bool
  /-- The counter of the eventfd `wakeup_event_fd`. -/
  wakeupEvent : Nat
  tid : Tid
  deriving Repr

namespace EventLoop

variable {τ : Type}

/-- The constructor. It assigns no value to `tid_`, which keeps the one it happens to have. -/
def new (tid : Tid) : EventLoop τ where
  toDoList := []
  callingFuncs := false
  wakeupEvent := 0
  tid := tid

variable (loop : EventLoop τ)

def isInLoopThread (current : Tid) : Bool := current == loop.tid

/-- The first half of `QueueOneFunc`: `emplace_back` under the lock. -/
def emplaceBack (cb : τ) : EventLoop τ := { loop with toDoList := loop.toDoList ++ [cb] }

/-- A `write` of 1 to the eventfd, which is non-blocking: it fails when the counter is at its maximum. -/
def writeWakeup : EventLoop τ :=
  if loop.wakeupEvent + 1 < UInt64.size - 1 then { loop with wakeupEvent := loop.wakeupEvent + 1 }
  else loop

/-- The second half of `QueueOneFunc`. -/
def wakeup (current : Tid) : EventLoop τ :=
  if !loop.isInLoopThread current || loop.callingFuncs then loop.writeWakeup else loop

/-- `read` of the eventfd in `HandleRead`: eight bytes, or -1 when the counter is zero. The result tells
whether the assert holds. -/
def handleRead : EventLoop τ × Bool :=
  if loop.wakeupEvent = 0 then (loop, false) else ({ loop with wakeupEvent := 0 }, true)

def setCallingFuncs (calling : Bool) : EventLoop τ := { loop with callingFuncs := calling }

/-- `funcs.swap(to_do_list)` under the lock. -/
def swap : EventLoop τ × List τ := ({ loop with toDoList := [] }, loop.toDoList)

section Lemmas

variable (current : Tid)

@[simp]
theorem tid_writeWakeup : loop.writeWakeup.tid = loop.tid := by
  unfold writeWakeup
  split <;> rfl

@[simp]
theorem toDoList_writeWakeup : loop.writeWakeup.toDoList = loop.toDoList := by
  unfold writeWakeup
  split <;> rfl

@[simp]
theorem callingFuncs_writeWakeup : loop.writeWakeup.callingFuncs = loop.callingFuncs := by
  unfold writeWakeup
  split <;> rfl

theorem wakeupEvent_writeWakeup : 0 < loop.writeWakeup.wakeupEvent := by
  unfold writeWakeup
  split
  · exact Nat.succ_pos _
  · rename_i hfull
    rw [UInt64.size] at hfull
    omega

@[simp]
theorem tid_wakeup : (loop.wakeup current).tid = loop.tid := by
  unfold wakeup
  split <;> simp

@[simp]
theorem toDoList_wakeup : (loop.wakeup current).toDoList = loop.toDoList := by
  unfold wakeup
  split <;> simp

@[simp]
theorem callingFuncs_wakeup : (loop.wakeup current).callingFuncs = loop.callingFuncs := by
  unfold wakeup
  split <;> simp

theorem wakeupEvent_wakeup (h : 0 < loop.wakeupEvent) : 0 < (loop.wakeup current).wakeupEvent := by
  unfold wakeup
  split
  · exact loop.wakeupEvent_writeWakeup
  · exact h

/-- Another thread always wakes the loop up, and so does the loop's own thread inside a function. -/
theorem wakeupEvent_wakeup_of (h : current ≠ loop.tid ∨ loop.callingFuncs = true) :
    0 < (loop.wakeup current).wakeupEvent := by
  have htest : (!loop.isInLoopThread current || loop.callingFuncs) = true := by
    rcases h with h | h <;> simp [isInLoopThread, h]
  rw [wakeup, if_pos htest]
  exact loop.wakeupEvent_writeWakeup

theorem handleRead_of_pos (h : 0 < loop.wakeupEvent) :
    loop.handleRead = ({ loop with wakeupEvent := 0 }, true) := by
  rw [handleRead, if_neg (Nat.ne_of_gt h)]

@[simp]
theorem tid_handleRead : loop.handleRead.1.tid = loop.tid := by
  unfold handleRead
  split <;> rfl

@[simp]
theorem toDoList_handleRead : loop.handleRead.1.toDoList = loop.toDoList := by
  unfold handleRead
  split <;> rfl

end Lemmas

end EventLoop

end EpollServer
