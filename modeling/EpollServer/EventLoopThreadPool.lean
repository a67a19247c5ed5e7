import EpollServer.EventLoopThread

/-!
# The thread pool

`EventLoopThreadPool::Start` starts the sub reactors one after the other, and `NextEventLoop` hands their
loops out in turn. `Startup` is the program from `Server::Start` on: the main thread in the pool's `Start`
and then in its own loop, where each new connection asks for a loop, and the threads of the sub reactors.
-/

namespace EpollServer

structure EventLoopThreadPool where
  mainReactor : LoopPtr
  /-- The number of elements of `sub_reactors`. -/
  subReactors : Nat
  eventLoops : List (Option LoopPtr)
  threadNums : Int
  next : Nat
  deriving Repr

namespace EventLoopThreadPool

def new (eventLoop : LoopPtr) : EventLoopThreadPool where
  mainReactor := eventLoop
  subReactors := 0
  eventLoops := []
  threadNums := 0
  next := 0

variable (pool : EventLoopThreadPool)

def setThreadNums (threadNums : Int) : EventLoopThreadPool := { pool with threadNums := threadNums }

/-- `NextEventLoop`, where the subscript has to be in range. -/
def nextEventLoop : Option (Option LoopPtr × EventLoopThreadPool) :=
  if pool.subReactors = 0 then some (some pool.mainReactor, pool)
  else
    pool.eventLoops[pool.next]?.map fun ret =>
      (ret, { pool with next := if pool.next + 1 = pool.subReactors then 0 else pool.next + 1 })

end EventLoopThreadPool

/-- Where the main thread is. -/
inductive PoolPc where
  /-- At the test of the loop in `EventLoopThreadPool::Start`. -/
  | test (i : Nat)
  /-- In `sub_reactors.back()->Start()`. -/
  | start (i : Nat)
  /-- In `main_reactor->Start()`. -/
  | running
  deriving DecidableEq, Repr

structure Startup where
  pool : EventLoopThreadPool
  pc : PoolPc
  threads : Nat → EventLoopThread
  /-- The event loops whose constructor has returned. -/
  constructed : List LoopPtr
  /-- Whether `Logger.Fatal` has ended the program. -/
  terminated : Bool
  /-- What the calls of `NextEventLoop` have returned. -/
  handed : List (Option LoopPtr)

namespace Startup

inductive Action where
  /-- The next statement of the main thread in `Start` of the pool. -/
  | main
  /-- The main thread calls `NextEventLoop` for a new connection. -/
  | newConnection
  /-- The next statement of the `i`-th thread; `ok` is the outcome of `eventfd` in a constructor. -/
  | runner (i : Nat) (ok : Bool)
  /-- The main thread wakes up in the `Start` of the `i`-th thread without a notification. -/
  | spurious (i : Nat)
  deriving DecidableEq, Repr

/-- `Server::Start` after `SetThreadNums`. -/
def new (threadNums : Int) : Startup where
  pool := (EventLoopThreadPool.new .mainReactor).setThreadNums threadNums
  pc := .test 0
  threads _ := .new
  constructed := [.mainReactor]
  terminated := false
  handed := []

variable (s : Startup)

def setThread (i : Nat) (thread : EventLoopThread) : Startup :=
  { s with threads := Function.update s.threads i thread }

/-- The next statement of the main thread before its own loop. -/
def advanceMain : Option Startup :=
  match s.pc with
  | .test i =>
      some (
        if (i : Int) < s.pool.threadNums then
          { s with pool := { s.pool with subReactors := s.pool.subReactors + 1 }, pc := .start i }
        else { s with pc := .running })
  | .start i =>
      match (s.threads i).starter with
      | .returned currentLoop =>
          some { s with
            pool := { s.pool with eventLoops := s.pool.eventLoops ++ [currentLoop] }
            pc := .test (i + 1) }
      | _ => (s.threads i).advanceStart.map (s.setThread i)
  | .running => none

/-- `HandleNewConnection` up to the call of `NextEventLoop`. -/
def newConnection : Option Startup :=
  match s.pc with
  | .running =>
      s.pool.nextEventLoop.map fun ret => { s with pool := ret.2, handed := s.handed ++ [ret.1] }
  | _ => none

/-- The next statement of the `i`-th thread. -/
def advanceRunner (i : Nat) (ok : Bool) : Option Startup :=
  match (s.threads i).constructs i with
  | some eventLoop =>
      if ok then
        (s.threads i).advanceRun i |>.map fun thread =>
          { s.setThread i thread with constructed := s.constructed ++ [eventLoop] }
      else some { s with terminated := true }
  | none => ((s.threads i).advanceRun i).map (s.setThread i)

def step (action : Action) : Option Startup :=
  if s.terminated then none
  else
    match action with
    | .main => s.advanceMain
    | .newConnection => s.newConnection
    | .runner i ok => s.advanceRunner i ok
    | .spurious i => (s.threads i).wakeSpuriously.map (s.setThread i)

end Startup

end EpollServer
