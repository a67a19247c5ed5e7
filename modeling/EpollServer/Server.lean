import EpollServer.EventLoop
import EpollServer.Session
import Mathlib.Algebra.BigOperators.Group.Finset.Defs

/-!
# The server

`Server`, its reactors and their threads, and the kernel's tables, as one step machine. Thread 0 runs the
main reactor, thread `i + 1` the `i`-th sub reactor. A step is the next step of one thread, and a thread is
cut wherever another one can come in between.

Shared pointers are modelled by their owners. A connection is owned while `connectionsMap`, a bound
function, a guard or a local variable holds a pointer to it, and the thread that gives up the last one goes
on with the destructor. The temporary pointers that the connection and message callbacks are called with
are left out: the local variable or the guard around the call outlives them.

A step has two parts. `Server.control` is what the thread does next, where it is afterwards and what it
does to a task queue; `Server.apply` is what this does to the connections and to the tables.
-/

namespace EpollServer

/-- The functions that the server binds to a connection. -/
inductive Task where
  | handleCloseInLoop (c : Nat)
  | connectionDestructor (c : Nat)
  deriving DecidableEq, Repr

/-- The connection that a bound function holds a pointer to. -/
def Task.conn : Task → Nat
  | .handleCloseInLoop c | .connectionDestructor c => c

@[simp]
theorem Task.conn_handleCloseInLoop (c : Nat) : (Task.handleCloseInLoop c).conn = c := rfl

@[simp]
theorem Task.conn_connectionDestructor (c : Nat) : (Task.connectionDestructor c).conn = c := rfl

/-- Work of a thread inside the server's functions. -/
inductive Work where
  | runOneFunc (loop : Nat) (cb : Task)
  | queueOneFunc (loop : Nat) (cb : Task)
  /-- The second half of `QueueOneFunc`. -/
  | wakeup (loop : Nat)
  /-- The call of a function that was given to a loop. -/
  | func (loop : Nat) (cb : Task)
  /-- A pointer to a connection goes out of scope. -/
  | release (c : Nat)
  /-- `~Connection`. -/
  | destructor (c : Nat)
  deriving DecidableEq, Repr

/-- A ready channel. -/
inductive Ready where
  | wakeup
  | accept
  | conn (fd : Fd) (c : Nat) (events : EpollEvents)
  deriving DecidableEq, Repr

/-- Where a thread is in `EventLoop::Start`. -/
inductive Pc where
  | epollWait
  | batch (rest : List Ready)
  /-- `Accept` has got a descriptor. -/
  | accepted (c : Nat) (fd : Fd) (rest : List Ready)
  /-- In `HandleNewConnection`, with the local pointer `conn`. -/
  | newConnection (c : Nat) (rest : List Ready)
  /-- In `HandleEvent` of a connection's channel; `guard` tells whether the guard holds a pointer. -/
  | handleEvent (c : Nat) (guard : Bool) (rest : List Ready)
  | swap
  /-- In the loop of `HandleToDoList`: the functions that were called and those that are not. -/
  | funcs (called rest : List Task)
  /-- The local vector of `HandleToDoList` goes out of scope. -/
  | destroyFuncs (rest : List Task)
  /-- The assert in `HandleCloseInLoop` failed. -/
  | aborted
  deriving DecidableEq, Repr

structure Thread where
  pc : Pc
  work : List Work
  deriving DecidableEq, Repr

/-- How far `HandleNewConnection` has come with a connection: the statement that is next. -/
inductive Stage where
  | construct
  | setCallbacks
  | insert
  | setConnected
  | tie
  | enableRead
  | onConnect
  | done
  deriving DecidableEq, Repr

/-- The place of a stage in the order of the statements. -/
def Stage.index : Stage → Nat
  | .construct => 0
  | .setCallbacks => 1
  | .insert => 2
  | .setConnected => 3
  | .tie => 4
  | .enableRead => 5
  | .onConnect => 6
  | .done => 7

/-- A connection that is constructed or to be constructed. -/
structure Slot where
  stage : Stage
  session : Session
  /-- Whether the last pointer to it is gone. -/
  expired : Bool
  /-- How often it was erased from `connectionsMap`. -/
  erased : Nat
  /-- How often its `ConnectionDestructor` ran. -/
  unregistered : Nat
  /-- How often its descriptor was closed. -/
  closed : Nat
  deriving Repr

namespace Slot

/-- A connection that the constructor has made, in `HandleNewConnection`. -/
def new (conn : Connection) : Slot where
  stage := .setCallbacks
  session := .new conn
  expired := false
  erased := 0
  unregistered := 0
  closed := 0

/-- No connection is constructed yet. -/
def empty : Slot := { new (.new 0 0 .invalid false false) with stage := .construct }

def fd (slot : Slot) : Fd := slot.session.conn.clientFd

def eventLoop (slot : Slot) : Nat := slot.session.conn.eventLoop

/-- Go on to a stage with a changed connection. -/
def goOn (slot : Slot) (stage : Stage) (conn : Connection) : Slot :=
  { slot with stage := stage, session := { slot.session with conn := conn } }

/-- What the next statement of `HandleNewConnection` does to the connection. `on_connect_` is
`EchoServer::onConnection`, which makes no calls on it. -/
def establish (slot : Slot) (ok : Bool) : Slot :=
  let conn := slot.session.conn
  match slot.stage with
  | .construct | .done => slot
  | .setCallbacks => slot.goOn .insert conn.setCloseCallback.setMessageCallback
  | .insert => slot.goOn .setConnected conn
  | .setConnected => slot.goOn .tie conn.setConnected
  | .tie => slot.goOn .enableRead conn.tie
  | .enableRead => slot.goOn .onConnect (conn.enableRead ok)
  | .onConnect => slot.goOn .done conn

/-- `tie.lock()`, which the channel only does when `tied` is set. Before `Tie` there is nothing to lock. -/
def lock (slot : Slot) : Bool := decide (Stage.tie.index < slot.stage.index) && !slot.expired

end Slot

/-- What the results about order and threads are stated about. -/
inductive Event where
  | onConnect (c : Nat)
  | onMessage (c : Nat)
  | onClose (c : Nat)
  /-- A function given to a loop by `RunOneFunc` or `QueueOneFunc` is called. -/
  | func (loop : Nat) (cb : Task)
  /-- A lookup, an insertion or an erasure. -/
  | connectionsMap
  deriving DecidableEq, Repr

structure Server where
  threadNums : Nat
  /-- The id of each thread. -/
  tid : Nat → Tid
  loops : Nat → EventLoop Task
  threads : Nat → Thread
  /-- `next` of the thread pool. -/
  next : Nat
  slots : Nat → Slot
  /-- The number of sockets that `accept4` returned. -/
  accepted : Nat
  connectionsMap : Fd → Option Nat
  /-- The sockets that the descriptors denote. -/
  files : Fd → Option Nat
  /-- The epoll sets: channel and registered events of each descriptor. -/
  epoll : Nat → Fd → Option (Nat × EpollEvents)
  /-- The bytes read from each socket. -/
  input : Nat → List UInt8
  /-- The bytes written to each socket. -/
  output : Nat → List UInt8
  /-- What happened, and on which thread. -/
  trace : List (Nat × Event)

/-- What a step does to the connections and to the tables. -/
inductive Effect where
  | none
  /-- A pointer to the connection is copied. -/
  | copy (c : Nat)
  /-- A pointer to the connection is gone, and another one is left. -/
  | drop (c : Nat)
  | accept (fd : Fd)
  /-- The constructor of the connection; `state` and `tied` are what its members happen to hold. -/
  | construct (c : Nat) (fd : Fd) (state : ConnectionState) (tied ok : Bool)
  /-- The next statement of `HandleNewConnection`. -/
  | establish (c : Nat) (ok : Bool)
  /-- A step of the connection's handlers, after which its session is this one. -/
  | session (c : Nat) (label : Label) (session : Session)
  | handleCloseInLoop (loop c : Nat)
  | connectionDestructor (loop c : Nat) (ok : Bool)
  /-- The last pointer is gone. -/
  | expire (c : Nat)
  /-- `close(client_fd)` in the destructor. -/
  | close (c : Nat)

/-- How a thread goes on: what it does, where it is then, and what it leaves in one of the loops. -/
structure Outcome where
  effect : Effect
  thread : Thread
  loop : Nat
  queue : EventLoop Task

/-- What the environment decides in a step. -/
inductive Move where
  | epollWait (ready : List Ready)
  | accept (fd : Option Fd)
  | construct (state : ConnectionState) (tied ok : Bool)
  /-- A step of the handlers of the connection. -/
  | run (label : Label)
  /-- Any other step; `ok` is the outcome of its `epoll_ctl`, if it calls it. -/
  | next (ok : Bool)
  deriving DecidableEq, Repr

/-- Whether a piece of work holds a pointer to a connection. -/
def Work.owns (c : Nat) : Work → Bool
  | .runOneFunc _ cb | .queueOneFunc _ cb => cb.conn == c
  | .release c' => c' == c
  | .wakeup _ | .func _ _ | .destructor _ => false

/-- The pointers that a thread holds where it is in `Start`. -/
def Pc.owns (c : Nat) : Pc → Nat
  | .newConnection c' _ => if c' = c then 1 else 0
  | .handleEvent c' guard _ => if guard ∧ c' = c then 1 else 0
  | .funcs called rest => called.countP (·.conn == c) + rest.countP (·.conn == c)
  | .destroyFuncs rest => rest.countP (·.conn == c)
  | _ => 0

def Thread.owns (c : Nat) (thread : Thread) : Nat :=
  thread.work.countP (·.owns c) + thread.pc.owns c

def EventLoop.owns (c : Nat) (loop : EventLoop Task) : Nat := loop.toDoList.countP (·.conn == c)

/-- The channel that is ready; its events are left out. -/
def Ready.channel : Ready → Ready
  | .conn fd c _ => .conn fd c .none
  | ready => ready

namespace Server

variable (s : Server)

/-- The sum over all threads and their loops. -/
def tally (f : EventLoop Task → Nat) (g : Thread → Nat) : Nat :=
  ∑ i ∈ Finset.range (s.threadNums + 1), (f (s.loops i) + g (s.threads i))

/-- The number of pointers that threads and queues hold. -/
def pointers (c : Nat) : Nat := s.tally (·.owns c) (·.owns c)

/-- Whether any pointer to a connection is left. -/
def Owned (c : Nat) : Prop := s.connectionsMap (s.slots c).fd = some c ∨ 0 < s.pointers c

instance (c : Nat) : Decidable (s.Owned c) := by
  unfold Owned
  infer_instance

def setThread (t : Nat) (thread : Thread) : Server :=
  { s with threads := Function.update s.threads t thread }

def setSlot (c : Nat) (slot : Slot) : Server := { s with slots := Function.update s.slots c slot }

def setSession (c : Nat) (session : Session) : Server :=
  s.setSlot c { s.slots c with session := session }

def log (t : Nat) (event : Event) : Server := { s with trace := s.trace ++ [(t, event)] }

/-- `epoll_ctl` with `ADD` or `MOD`, in the loop of the connection and for its channel. -/
def undateChannel (c : Nat) (ok : Bool) : Server :=
  let slot := s.slots c
  let item := some (c, slot.session.conn.channel.listeningEvents)
  { s with
    epoll :=
      if ok then Function.update s.epoll slot.eventLoop
        (Function.update (s.epoll slot.eventLoop) slot.fd item)
      else s.epoll }

/-- `EventLoopThreadPool::NextEventLoop`: the loop, and the next value of `next`. -/
def nextEventLoop : Nat × Nat :=
  if s.threadNums = 0 then (0, s.next)
  else (s.next + 1, if s.next + 1 = s.threadNums then 0 else s.next + 1)

/-- The constructor of `Connection`, which registers the channel. -/
def construct (c : Nat) (fd : Fd) (state : ConnectionState) (tied ok : Bool) : Server :=
  ({ s with next := s.nextEventLoop.2 }.setSlot c
    (.new (.new s.nextEventLoop.1 fd state tied ok))).undateChannel c ok

/-- The next statement of `HandleNewConnection`, `ConnectionEstablished` included, after the constructor. -/
def newConnection (t c : Nat) (ok : Bool) : Server :=
  let slot := s.slots c
  let s := s.setSlot c (slot.establish ok)
  match slot.stage with
  | .insert =>
      { s with connectionsMap := Function.update s.connectionsMap slot.fd (some c) }.log t .connectionsMap
  | .enableRead => s.undateChannel c ok
  | .onConnect => s.log t (.onConnect c)
  | _ => s

/-- What a step of the handlers shows outside the connection. -/
def runSession (t c : Nat) (label : Label) (session : Session) : Server :=
  let s := s.setSession c session
  match label with
  | .read _ r =>
      match s.files (s.slots c).fd with
      | some k => { s with input := Function.update s.input k (s.input k ++ r.bytes) }
      | none => s
  | .write bytes r =>
      match s.files (s.slots c).fd with
      | some k => { s with output := Function.update s.output k (s.output k ++ bytes.take r.count) }
      | none => s
  | .epollCtl ok => s.undateChannel c ok
  | .onMessage _ => s.log t (.onMessage c)
  | .onClose => s.log t (.onClose c)
  | _ => s

/-- `HandleCloseInLoop` up to the call of `QueueOneFunc`: the lookup, and the erasure of what it found. -/
def handleCloseInLoop (t loop c : Nat) : Server :=
  let s := (s.log t (.func loop (.handleCloseInLoop c))).log t .connectionsMap
  match s.connectionsMap (s.slots c).fd with
  | none => s
  | some e =>
      { s with connectionsMap := Function.update s.connectionsMap (s.slots c).fd none }.setSlot e
        { s.slots e with erased := (s.slots e).erased + 1 }

/-- `ConnectionDestructor`, which calls `DeleteChannel`. -/
def connectionDestructor (t loop c : Nat) (ok : Bool) : Server :=
  let s := s.log t (.func loop (.connectionDestructor c))
  let slot := s.slots c
  let conn := { slot.session.conn with channel := slot.session.conn.channel.deleteChannel ok }
  { s with
    epoll :=
      if ok then Function.update s.epoll slot.eventLoop
        (Function.update (s.epoll slot.eventLoop) slot.fd none)
      else s.epoll }.setSlot c
    { slot with session := { slot.session with conn := conn }, unregistered := slot.unregistered + 1 }

/-- `close(client_fd)`: the descriptor is free, and it leaves every epoll set. -/
def close (c : Nat) : Server :=
  let slot := s.slots c
  { s with
    files := Function.update s.files slot.fd none
    epoll := fun l => Function.update (s.epoll l) slot.fd none }.setSlot c
    { slot with closed := slot.closed + 1 }

/-- What thread `t` does to the connections and to the tables. -/
def apply (t : Nat) : Effect → Server
  | .none | .copy _ | .drop _ => s
  | .accept fd => { s with
      files := Function.update s.files fd (some s.accepted)
      accepted := s.accepted + 1 }
  | .construct c fd state tied ok => s.construct c fd state tied ok
  | .establish c ok => s.newConnection t c ok
  | .session c label session => s.runSession t c label session
  | .handleCloseInLoop loop c => s.handleCloseInLoop t loop c
  | .connectionDestructor loop c ok => s.connectionDestructor t loop c ok
  | .expire c => s.setSlot c { s.slots c with expired := true }
  | .close c => s.close c

/-- Thread `t` goes on at `pc` and does not use a task queue. -/
def goOn (t : Nat) (effect : Effect) (pc : Pc) (work : List Work) : Outcome :=
  ⟨effect, ⟨pc, work⟩, t, s.loops t⟩

/-- The next piece of work of thread `t`, which is at `pc` and has `rest` to do after it. -/
def doWork (t : Nat) (pc : Pc) (item : Work) (rest : List Work) (ok : Bool) : Outcome :=
  match item with
  | .runOneFunc l cb =>
      if (s.loops l).isInLoopThread (s.tid t) then
        s.goOn t .none pc (.func l cb :: .release cb.conn :: rest)
      else s.goOn t (.copy cb.conn) pc (.queueOneFunc l cb :: .release cb.conn :: rest)
  | .queueOneFunc l cb => ⟨.none, ⟨pc, .wakeup l :: rest⟩, l, (s.loops l).emplaceBack cb⟩
  | .wakeup l => ⟨.none, ⟨pc, rest⟩, l, (s.loops l).wakeup (s.tid t)⟩
  | .func l (.handleCloseInLoop c) =>
      match s.connectionsMap (s.slots c).fd with
      | none => s.goOn t (.handleCloseInLoop l c) .aborted []
      | some e => s.goOn t (.handleCloseInLoop l c) pc
          (.release e :: .queueOneFunc (s.slots c).eventLoop (.connectionDestructor c) :: rest)
  | .func l (.connectionDestructor c) => s.goOn t (.connectionDestructor l c ok) pc rest
  | .release c =>
      if (s.setThread t ⟨pc, rest⟩).Owned c then s.goOn t (.drop c) pc rest
      else s.goOn t (.expire c) pc (.destructor c :: rest)
  | .destructor c => s.goOn t (.close c) pc rest

/-- Whether `epoll_wait` of thread `t` may return a channel with these events. -/
def Reports (t : Nat) : Ready → Prop
  | .wakeup => 0 < (s.loops t).wakeupEvent
  | .accept => t = 0
  | .conn fd c events =>
      match s.epoll t fd with
      | some (c', registered) => c' = c ∧ events.reported registered = events
      | none => False

instance (t : Nat) (ready : Ready) : Decidable (s.Reports t ready) := by
  unfold Reports
  split
  · infer_instance
  · infer_instance
  · split <;> infer_instance

/-- A step of thread `t` in the handlers of connection `c`. -/
def handle (t c : Nat) (guard : Bool) (rest : List Ready) (label : Label) : Option Outcome :=
  if (s.slots c).session.stack = [] then none
  else do
    let session ← (s.slots c).session.step label
    some (s.goOn t (.session c label session) (.handleEvent c guard rest)
      (if label = .onClose then [.runOneFunc 0 (.handleCloseInLoop c), .release c] else []))

/-- The next statement of `HandleNewConnection`. The assignment to `connectionsMap` gives up a pointer
that was there, and the local pointer goes with the end of the function. -/
def establish (t c : Nat) (rest : List Ready) (ok : Bool) : Option Outcome :=
  match (s.slots c).stage with
  | .construct | .done => none
  | .insert => some (s.goOn t (.establish c ok) (.newConnection c rest)
      ((s.connectionsMap (s.slots c).fd).toList.map .release))
  | .onConnect => some (s.goOn t (.establish c ok) (.batch rest) [.release c])
  | _ => some (s.goOn t (.establish c ok) (.newConnection c rest) [])

/-- The next step of thread `t` when nothing is left to do in a function of the server. -/
def advance (t : Nat) (pc : Pc) (move : Move) : Option Outcome :=
  match pc, move with
  | .epollWait, .epollWait ready =>
      if (ready.map Ready.channel).Nodup ∧ ∀ item ∈ ready, s.Reports t item then
        some (s.goOn t .none (.batch ready) [])
      else none
  | .batch (.wakeup :: rest), .next _ =>
      some ⟨.none, ⟨if (s.loops t).handleRead.2 then .batch rest else .aborted, []⟩, t,
        (s.loops t).handleRead.1⟩
  | .batch (.accept :: rest), .accept none => some (s.goOn t .none (.batch rest) [])
  | .batch (.accept :: rest), .accept (some fd) =>
      if s.files fd = none then some (s.goOn t (.accept fd) (.accepted s.accepted fd rest) [])
      else none
  | .batch (.conn _ c events :: rest), .next _ => do
      let session ← (s.slots c).session.step (.event events)
      some (s.goOn t (.session c (.event events) session)
        (.handleEvent c ((s.slots c).session.conn.channel.tied && (s.slots c).lock) rest) [])
  | .batch [], .next _ => some ⟨.none, ⟨.swap, []⟩, t, (s.loops t).setCallingFuncs true⟩
  | .accepted c fd rest, .construct state tied ok =>
      some (s.goOn t (.construct c fd state tied ok) (.newConnection c rest) [])
  | .newConnection c rest, .next ok => s.establish t c rest ok
  | .handleEvent c guard rest, .run label => s.handle t c guard rest label
  | .handleEvent c guard rest, .next _ =>
      if (s.slots c).session.stack = [] then
        some (s.goOn t .none (.batch rest) (if guard then [.release c] else []))
      else none
  | .swap, .next _ => some ⟨.none, ⟨.funcs [] (s.loops t).swap.2, []⟩, t, (s.loops t).swap.1⟩
  | .funcs called (cb :: rest), .next _ =>
      some (s.goOn t .none (.funcs (called ++ [cb]) rest) [.func t cb])
  | .funcs called [], .next _ =>
      some ⟨.none, ⟨.destroyFuncs called, []⟩, t, (s.loops t).setCallingFuncs false⟩
  | .destroyFuncs (cb :: rest), .next _ =>
      some (s.goOn t .none (.destroyFuncs rest) [.release cb.conn])
  | .destroyFuncs [], .next _ => some (s.goOn t .none .epollWait [])
  | _, _ => none

/-- What thread `t` does next. -/
def control (t : Nat) (move : Move) : Option Outcome :=
  match (s.threads t).work, move with
  | item :: rest, .next ok => some (s.doWork t (s.threads t).pc item rest ok)
  | _ :: _, _ => none
  | [], _ => s.advance t (s.threads t).pc move

/-- The state after thread `t` has gone on. -/
def after (t : Nat) (o : Outcome) : Server :=
  { s.apply t o.effect with
    threads := Function.update s.threads t o.thread
    loops := Function.update s.loops o.loop o.queue }

/-- A step: a thread and what the environment decides. -/
def step (action : Nat × Move) : Option Server :=
  if action.1 ≤ s.threadNums then (s.control action.1 action.2).map (s.after action.1) else none

/-- The server before its first connection. The loops of the reactors keep the `tid_` that they happen to
have. -/
structure Fresh : Prop where
  loops : ∀ l, s.loops l = .new (s.loops l).tid
  threads : ∀ t, s.threads t = ⟨.epollWait, []⟩
  next : s.next = 0
  slots : ∀ c, s.slots c = .empty
  accepted : s.accepted = 0
  connectionsMap : ∀ fd, s.connectionsMap fd = none
  files : ∀ fd, s.files fd = none
  epoll : ∀ l fd, s.epoll l fd = none
  input : ∀ k, s.input k = []
  output : ∀ k, s.output k = []
  trace : s.trace = []

/-- The server with `threadNums` sub reactors, given the ids of the threads and what the `tid_` of the
loops happen to be. -/
def start (threadNums : Nat) (tid garbage : Nat → Tid) : Server where
  threadNums := threadNums
  tid := tid
  loops l := .new (garbage l)
  threads _ := ⟨.epollWait, []⟩
  next := 0
  slots _ := .empty
  accepted := 0
  connectionsMap _ := none
  files _ := none
  epoll _ _ := none
  input _ := []
  output _ := []
  trace := []

theorem fresh_start (threadNums : Nat) (tid garbage : Nat → Tid) : (start threadNums tid garbage).Fresh where
  loops _ := rfl
  threads _ := rfl
  next := rfl
  slots _ := rfl
  accepted := rfl
  connectionsMap _ := rfl
  files _ := rfl
  epoll _ _ := rfl
  input _ := rfl
  output _ := rfl
  trace := rfl

end Server

end EpollServer
