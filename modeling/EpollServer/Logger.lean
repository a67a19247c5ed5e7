import Mathlib.Logic.Function.Basic

/-!
# Loggers

A `LoggerInner` object and the threads that are inside its functions, one statement at a time. `Log` takes
the mutex once to print and once more to push the record; `AsyncThreadFunc` holds it while it writes a batch
of records. The output stream fails when the file cannot be opened, at a flush, or in the middle of a record,
of which it then has written only the first characters.
-/

namespace EpollServer

inductive LogLevel where
  | debug
  | info
  | error
  | fatal
  deriving DecidableEq, Repr

/-- The value of the enumerator. -/
def LogLevel.value : LogLevel → Nat
  | .debug => 0
  | .info => 1
  | .error => 2
  | .fatal => 3

/-- `_LOG_LEVEL`. -/
def logLevel : Nat := LogLevel.info.value

def getLogLevelName : LogLevel → String
  | .debug => "DEBUG"
  | .info => "INFO"
  | .error => "ERROR"
  | .fatal => "ERROR"

/-- The arguments of `Log`. -/
structure LogCall where
  level : LogLevel
  name : String
  err : String
  message : String
  deriving DecidableEq, Repr

namespace LogCall

/-- What `Log` prints for a thread. -/
def printed (call : LogCall) (thread : Nat) : String :=
  "LEVEL[" ++ getLogLevelName call.level ++ "] thread[" ++ toString thread ++ "] name[" ++ call.name ++
    "]" ++ " err:" ++ call.err ++ " message: " ++ call.message ++ "\n"

/-- What `Log` puts into `oss`. -/
def record (call : LogCall) : String :=
  "LEVEL[" ++ getLogLevelName call.level ++ "] name[" ++ call.name ++ "]" ++ " err:" ++ call.err ++
    " message: " ++ call.message ++ "\n"

end LogCall

/-- An output file stream and its file. -/
structure TargetStream where
  contents : String
  failed : Bool
  deriving DecidableEq, Repr

namespace TargetStream

/-- The stream on a file just created or truncated. -/
def empty : TargetStream := ⟨"", false⟩

/-- `<< text`, whole or failing after `n` characters. A stream that has failed takes nothing. -/
def write (stream : TargetStream) (text : String) (cut : Option Nat) : Option TargetStream :=
  if stream.failed then some stream
  else
    match cut with
    | none => some { stream with contents := stream.contents ++ text }
    | some n =>
        if n < text.length then
          some ⟨stream.contents ++ String.ofList (text.toList.take n), true⟩
        else none

def flush (stream : TargetStream) (ok : Bool) : TargetStream :=
  { stream with failed := stream.failed || !ok }

end TargetStream

structure LoggerInner where
  isAsync : Bool
  buffer : List String
  isPrintCout : Bool
  oss : String
  /-- The thread that `async_thread` stands for, if any. -/
  asyncThread : Option Nat
  /-- The thread that holds the mutex. -/
  mu : Option Nat
  asyncThreadFailed : Bool
  /-- What was printed through this object. -/
  console : String
  /-- The local `target_stream` of `AsyncThreadFunc`. -/
  targetStream : TargetStream
  deriving DecidableEq, Repr

/-- The object after its constructor, given `is_print_cout`. -/
def LoggerInner.new (isPrintCout : Bool) : LoggerInner where
  isAsync := false
  buffer := []
  isPrintCout := isPrintCout
  oss := ""
  asyncThread := none
  mu := none
  asyncThreadFailed := false
  console := ""
  targetStream := .empty

/-- Where a thread is in `Log`: the statement that is next. -/
inductive LogPc where
  | testLevel
  | lockCout
  | print
  | unlockCout
  | testAsync
  | lock
  | format
  | push
  | clear
  | unlock
  deriving DecidableEq, Repr

/-- Where a thread is in the `while(true)` of `AsyncThreadFunc`; `cnt` is the counter of the inner loop. -/
inductive DrainPc where
  | lock
  | test (cnt : Nat)
  | write (cnt : Nat)
  | pop (cnt : Nat)
  | flush
  | unlock
  | sleep
  deriving DecidableEq, Repr

/-- What follows a call of `Log`. -/
inductive LogReturn where
  /-- It returns to code outside of the object. -/
  | caller
  /-- `std::terminate()` in `Fatal`. -/
  | terminate
  /-- The loop of `AsyncThreadFunc`, after its `Info`. -/
  | drain
  /-- `async_thread_failed = true`, after the `Error` of `AsyncThreadFunc`. -/
  | setFailed
  deriving DecidableEq, Repr

inductive LoggerPc where
  | idle
  | log (call : LogCall) (pc : LogPc) (ret : LogReturn)
  /-- In `std::terminate()`; the program may end at any moment. -/
  | terminate
  /-- At the beginning of `AsyncThreadFunc`. -/
  | asyncThreadFunc
  | drain (pc : DrainPc)
  | setFailed
  deriving DecidableEq, Repr

def LogReturn.pc : LogReturn → LoggerPc
  | .caller => .idle
  | .terminate => .terminate
  | .drain => .drain .lock
  | .setFailed => .setFailed

inductive LogLabel where
  /-- A call of `Log`, or of `Debug`, `Info` or `Error`. -/
  | log (call : LogCall)
  /-- A call of `Fatal`. -/
  | fatal (name err message : String)
  | tau
  /-- The constructor of `target_stream`, with the text of `errno` if it fails. -/
  | openFile (err : Option String)
  /-- `target_stream << buffer.front() << std::endl`. -/
  | write (cut : Option Nat)
  | flush (ok : Bool)
  deriving DecidableEq, Repr

/-- `max_size`. -/
def maxSize : Nat := 10000

/-- The `Info` of `AsyncThreadFunc`. -/
def asyncThreadRunning : LogCall := ⟨.info, "LoggerInner::StartAasync", "", "async thread running"⟩

/-- The `Error` of `AsyncThreadFunc`. -/
def asyncThreadStartFailed (err : String) : LogCall :=
  ⟨.error, "LoggerInner::StartAasync", err, "async thread start failed"⟩

namespace LoggerInner

variable (l : LoggerInner)

def acquire (thread : Nat) (pc : LoggerPc) : Option (LoggerInner × LoggerPc) :=
  if l.mu = none then some ({ l with mu := some thread }, pc) else none

/-- The next statement of a thread that is in `Log`. -/
def advanceLog (thread : Nat) (call : LogCall) (pc : LogPc) (ret : LogReturn) :
    Option (LoggerInner × LoggerPc) :=
  match pc with
  | .testLevel =>
      some (l, if call.level.value < logLevel then ret.pc
        else .log call (if l.isPrintCout then .lockCout else .testAsync) ret)
  | .lockCout => l.acquire thread (.log call .print ret)
  | .print => some ({ l with console := l.console ++ call.printed thread }, .log call .unlockCout ret)
  | .unlockCout => some ({ l with mu := none }, .log call .testAsync ret)
  | .testAsync =>
      some (l, if l.isAsync && !l.asyncThreadFailed then .log call .lock ret else ret.pc)
  | .lock => l.acquire thread (.log call .format ret)
  | .format => some ({ l with oss := l.oss ++ call.record }, .log call .push ret)
  | .push => some ({ l with buffer := l.buffer ++ [l.oss] }, .log call .clear ret)
  | .clear => some ({ l with oss := "" }, .log call .unlock ret)
  | .unlock => some ({ l with mu := none }, ret.pc)

/-- The next statement of the thread that is in the loop of `AsyncThreadFunc`. -/
def advanceDrain (thread : Nat) (pc : DrainPc) (label : LogLabel) : Option (LoggerInner × LoggerPc) :=
  match pc, label with
  | .lock, .tau => l.acquire thread (.drain (.test 0))
  | .test cnt, .tau =>
      some (l, .drain (
        if cnt < maxSize ∧ l.buffer ≠ [] then
          if l.targetStream.failed then .test (cnt + 1) else .write (cnt + 1)
        else .flush))
  | .write cnt, .write cut => do
      let front ← l.buffer.head?
      let stream ← l.targetStream.write (front ++ "\n") cut
      some ({ l with targetStream := stream }, .drain (.pop cnt))
  | .pop cnt, .tau =>
      if l.buffer = [] then none else some ({ l with buffer := l.buffer.tail }, .drain (.test cnt))
  | .flush, .flush ok => some ({ l with targetStream := l.targetStream.flush ok }, .drain .unlock)
  | .unlock, .tau => some ({ l with mu := none }, .drain .sleep)
  | .sleep, .tau => some (l, .drain .lock)
  | _, _ => none

/-- The next statement of a thread, where the label is one that it can show. -/
def advance (thread : Nat) (pc : LoggerPc) (label : LogLabel) : Option (LoggerInner × LoggerPc) :=
  match pc, label with
  | .idle, .log call => some (l, .log call .testLevel .caller)
  | .idle, .fatal name err message => some (l, .log ⟨.fatal, name, err, message⟩ .testLevel .terminate)
  | .log call pc ret, .tau => l.advanceLog thread call pc ret
  | .asyncThreadFunc, .openFile none =>
      some ({ l with targetStream := .empty }, .log asyncThreadRunning .testLevel .drain)
  | .asyncThreadFunc, .openFile (some err) =>
      some ({ l with isAsync := false }, .log (asyncThreadStartFailed err) .testLevel .setFailed)
  | .drain pc, label => l.advanceDrain thread pc label
  | .setFailed, .tau => some ({ l with asyncThreadFailed := true }, .idle)
  | _, _ => none

end LoggerInner

/-- What happened to the records of an object so far. -/
structure LogHistory where
  /-- The records that were pushed. -/
  pushed : List String
  /-- The records whose writing succeeded. -/
  written : List String
  /-- The records that were popped. -/
  popped : List String
  /-- Whether the stream failed in the middle of a record. -/
  torn : Bool
  deriving DecidableEq, Repr

namespace LogHistory

def new : LogHistory := ⟨[], [], [], false⟩

/-- The history after a statement of a thread at `pc`, on the object `l`. -/
def record (h : LogHistory) (l : LoggerInner) (pc : LoggerPc) (label : LogLabel) : LogHistory :=
  match pc, label with
  | .log _ .push _, _ => { h with pushed := h.pushed ++ [l.oss] }
  | .drain (.write _), .write none =>
      if l.targetStream.failed then h else { h with written := h.written ++ l.buffer.take 1 }
  | .drain (.write _), .write (some _) => { h with torn := true }
  | .drain (.pop _), _ => { h with popped := h.popped ++ l.buffer.take 1 }
  | _, _ => h

end LogHistory

/-- A `LoggerInner` object and where each thread is in its functions. -/
structure Logger where
  inner : LoggerInner
  pcs : Nat → LoggerPc
  history : LogHistory

namespace Logger

/-- A new object, which no thread uses. -/
def new (isPrintCout : Bool) : Logger where
  inner := .new isPrintCout
  pcs := fun _ => .idle
  history := .new

/-- `StartAasync`, where `thread` is the thread that it creates. -/
def startAasync (s : Logger) (thread : Nat) : Logger :=
  if s.inner.isAsync then s
  else
    { s with
      inner := { s.inner with isAsync := true, asyncThread := some thread }
      pcs := Function.update s.pcs thread .asyncThreadFunc }

/-- A step of one thread. -/
def step (s : Logger) (action : Nat × LogLabel) : Option Logger := do
  let (thread, label) := action
  let (inner, pc) ← s.inner.advance thread (s.pcs thread) label
  some {
    inner := inner
    pcs := Function.update s.pcs thread pc
    history := s.history.record s.inner (s.pcs thread) label }

end Logger

end EpollServer
