import EpollServer.Logger

/-!
# The loggers of the program

`logger.h` declares its `Logger` as `static`, so each source file that includes the header has an object of
its own. `main` calls `StartAasync` on the one of `echoserver.cpp`; the code of another file logs through the
object of that file.
-/

namespace EpollServer

/-- The source files that include `logger.h`. -/
inductive SourceFile where
  | acceptor
  | connection
  | echoserver
  | epoller
  | eventloop
  | eventloopthread
  | eventloopthreadpool
  | logger
  | server
  deriving DecidableEq, Repr

namespace SourceFile

def all : List SourceFile :=
  [.acceptor, .connection, .echoserver, .epoller, .eventloop, .eventloopthread, .eventloopthreadpool,
    .logger, .server]

theorem mem_all (file : SourceFile) : file ∈ all := by cases file <;> decide

instance (P : SourceFile → Prop) [DecidablePred P] : Decidable (∀ file, P file) :=
  decidable_of_iff (∀ file ∈ all, P file)
    ⟨fun h file => h file (mem_all file), fun h file _ => h file⟩

end SourceFile

/-- The record of a call of `Log` in which the next statement of the thread decides what becomes of it: the
record is pushed, or the object is not asynchronous and nothing is. -/
def Logger.logs (s : Logger) (thread : Nat) : List String :=
  match s.pcs thread with
  | .log call .push _ => [call.record]
  | .log call .testAsync _ => if s.inner.isAsync && !s.inner.asyncThreadFailed then [] else [call.record]
  | _ => []

structure Program where
  /-- The `Logger` of each source file. -/
  loggers : SourceFile → Logger
  /-- What was logged so far at the level of `_LOG_LEVEL` or above, and from which file. -/
  logged : List (SourceFile × String)

/-- A statement of a thread in a function of the object of a file. -/
structure LogStep where
  file : SourceFile
  thread : Nat
  label : LogLabel
  deriving DecidableEq, Repr

namespace Program

/-- After `Logger.StartAasync` in `main`, where `thread` is the thread that it creates. -/
def startAasync (thread : Nat) : Program where
  loggers := Function.update (fun _ => .new true) .echoserver ((Logger.new true).startAasync thread)
  logged := []

/-- A step of a thread, which is in a function of at most one of the objects. -/
def step (p : Program) (a : LogStep) : Option Program :=
  if ∀ file, file ≠ a.file → (p.loggers file).pcs a.thread = .idle then do
    let logger ← (p.loggers a.file).step (a.thread, a.label)
    some {
      loggers := Function.update p.loggers a.file logger
      logged := p.logged ++ ((p.loggers a.file).logs a.thread).map (a.file, ·) }
  else none

end Program

end EpollServer
