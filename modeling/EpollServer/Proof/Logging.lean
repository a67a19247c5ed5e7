import EpollServer.Logging
import EpollServer.Proof.Draining

/-!
# What the program loses of its log

Only the records logged through the object that `main` switched reach the file. That object pushes each of
them, since nothing switches it back once its file is open, so its queue accounts for the records of one
source file; those of the others are in no queue.
-/

namespace EpollServer

/-- What a statement pushes. -/
def LoggerPc.pushes (pc : LoggerPc) (oss : String) : List String :=
  match pc with
  | .log _ .push _ => [oss]
  | _ => []

theorem LogHistory.pushed_record (h : LogHistory) (l : LoggerInner) (pc : LoggerPc) (label : LogLabel) :
    (h.record l pc label).pushed = h.pushed ++ pc.pushes l.oss := by
  unfold record
  split
  · rfl
  · split
    · exact (List.append_nil _).symm
    · exact (List.append_nil _).symm
  · exact (List.append_nil _).symm
  · exact (List.append_nil _).symm
  · rename_i hpush _ _ _
    unfold LoggerPc.pushes
    split
    · exact absurd rfl (hpush _ _)
    · exact (List.append_nil _).symm

theorem LoggerInner.inAsyncThreadFunc_of_tears {l : LoggerInner} {thread : Nat} {pc : LoggerPc}
    {label : LogLabel} {r : LoggerInner × LoggerPc} (h : l.advance thread pc label = some r)
    (htears : label.tears = true) : pc.inAsyncThreadFunc = true := by
  cases label with
  | write cut =>
      cases pc with
      | drain => rfl
      | idle | log | terminate | asyncThreadFunc | setFailed => cases h
  | log | fatal | tau | openFile | flush => cases htears

namespace Logger

variable {s s' : Logger} {action : Nat × LogLabel} {isPrintCout : Bool} {thread : Nat}

/-- The object is asynchronous, and its `AsyncThreadFunc` is not giving up. -/
structure Switched (s : Logger) : Prop where
  isAsync : s.inner.isAsync = true
  asyncThreadFailed : s.inner.asyncThreadFailed = false
  opened : ∀ u, (s.pcs u).openFailed = false

theorem switched_startAasync : ((new isPrintCout).startAasync thread).Switched where
  isAsync := rfl
  asyncThreadFailed := rfl
  opened := (Function.forall_update_iff _ fun _ (pc : LoggerPc) => pc.openFailed = false).mpr
    ⟨rfl, fun _ _ => rfl⟩

theorem Switched.step (hw : s.Switched) (hopen : action.2.failsToOpen = false)
    (h : s.step action = some s') : s'.Switched := by
  obtain ⟨inner, pc, hadvance, rfl⟩ := step_cases h
  obtain ⟨hmode, hpc⟩ := (LoggerInner.advance_frame hadvance).mode hopen (hw.opened action.1)
  refine ⟨hmode.isAsync.trans hw.isAsync, hmode.asyncThreadFailed.trans hw.asyncThreadFailed, ?_⟩
  exact (Function.forall_update_iff s.pcs fun _ (pc : LoggerPc) => pc.openFailed = false).mpr
    ⟨hpc, fun u _ => hw.opened u⟩

theorem asyncThread_step (h : s.step action = some s') : s'.inner.asyncThread = s.inner.asyncThread := by
  obtain ⟨inner, pc, hadvance, rfl⟩ := step_cases h
  exact (LoggerInner.advance_frame hadvance).asyncThread

/-- An object that `StartAasync` was not called on writes nothing. -/
theorem Sound.tears_eq_false (hs : s.Sound) (hnone : s.inner.asyncThread = none)
    (h : s.step action = some s') : action.2.tears = false := by
  obtain ⟨inner, pc, hadvance, rfl⟩ := step_cases h
  refine Bool.eq_false_iff.mpr fun htears => ?_
  have hthread := hs.async _ (LoggerInner.inAsyncThreadFunc_of_tears hadvance htears)
  rw [hnone] at hthread
  cases hthread

/-- **What an asynchronous object logs is what it pushes.** -/
theorem Sound.pushed_step (hs : s.Sound) (hw : s.Switched) (h : s.step action = some s') :
    s'.history.pushed = s.history.pushed ++ s.logs action.1 := by
  obtain ⟨inner, pc, hadvance, rfl⟩ := step_cases h
  change (s.history.record s.inner (s.pcs action.1) action.2).pushed = _
  rw [LogHistory.pushed_record]
  congr 1
  unfold LoggerPc.pushes logs
  split
  · rename_i call ret hpc
    have howner := hs.excludes.owner_eq (t := action.1) (by rw [hpc]; rfl)
    have hoss := hs.held.oss
    rw [ownerPc, howner] at hoss
    change (s.pcs action.1).OssIs s.inner.oss at hoss
    rw [hpc] at hoss ⊢
    exact congrArg ([·]) hoss
  · rename_i hpush
    split
    · rename_i call ret hpc
      exact absurd hpc (hpush call ret)
    · rw [hw.isAsync, hw.asyncThreadFailed]
      rfl
    · rfl

end Logger

namespace Program

variable {p p' : Program} {a : LogStep} {thread : Nat}

/-- The `Logger` that `main` switched. -/
def echoserver (p : Program) : Logger := p.loggers .echoserver

/-- **The law of the log of the whole program.** The file contains the records that were written, and these,
followed by the queue, are what all source files logged, in the order in which they logged it. -/
structure Complete (p : Program) : Prop where
  contents : p.echoserver.inner.targetStream.contents = drained p.echoserver.history.written
  logged : p.echoserver.history.written ++ p.echoserver.pending = p.logged.map (·.2)

/-- What a source file logged. -/
def loggedFrom (p : Program) (file : SourceFile) : List String :=
  (p.logged.filter (·.1 = file)).map (·.2)

/-- What holds of the loggers of the program once `main` has switched one of them. -/
structure Recording (p : Program) : Prop where
  sound : ∀ file, (p.loggers file).Sound
  others : ∀ file, file ≠ .echoserver → (p.loggers file).inner.asyncThread = none
  switched : p.echoserver.Switched
  pushed : p.echoserver.history.pushed = p.loggedFrom .echoserver

theorem step_cases (h : p.step a = some p') : ∃ logger,
    (p.loggers a.file).step (a.thread, a.label) = some logger ∧
      p' = ⟨Function.update p.loggers a.file logger,
        p.logged ++ ((p.loggers a.file).logs a.thread).map (a.file, ·)⟩ := by
  obtain ⟨-, h⟩ := Option.ite_none_right_eq_some.mp h
  obtain ⟨logger, hlogger, h⟩ := Option.bind_eq_some_iff.mp h
  exact ⟨logger, hlogger, (Option.some.inj h).symm⟩

theorem filter_map_pair (file file' : SourceFile) (records : List String) :
    ((records.map (file', ·)).filter (·.1 = file)).map (·.2) = if file' = file then records else [] := by
  by_cases heq : file' = file
  · simp [heq, List.filter_map, Function.comp_def]
  · simp [heq, List.filter_map, Function.comp_def]

theorem recording_startAasync : (startAasync thread).Recording where
  sound := (Function.forall_update_iff _ fun _ (s : Logger) => s.Sound).mpr
    ⟨Logger.sound_startAasync, fun _ _ => Logger.sound_new⟩
  others := (Function.forall_update_iff _ fun file (s : Logger) => file ≠ SourceFile.echoserver →
    s.inner.asyncThread = none).mpr ⟨fun hne => absurd rfl hne, fun _ _ _ => rfl⟩
  switched := Logger.switched_startAasync
  pushed := rfl

/-- A step of the object that `main` switched, or of another one, which it leaves alone. -/
theorem echoserver_cases (h : p.step a = some p') :
    (a.file = .echoserver ∧ p.echoserver.step (a.thread, a.label) = some p'.echoserver ∧
      p'.loggedFrom .echoserver = p.loggedFrom .echoserver ++ p.echoserver.logs a.thread) ∨
    (a.file ≠ .echoserver ∧ p'.echoserver = p.echoserver ∧
      p'.loggedFrom .echoserver = p.loggedFrom .echoserver) := by
  obtain ⟨logger, hlogger, heq⟩ := step_cases h
  have hechoserver : p'.echoserver = Function.update p.loggers a.file logger .echoserver := by
    rw [heq]
    rfl
  have hlogged : p'.loggedFrom .echoserver = p.loggedFrom .echoserver ++
      if a.file = .echoserver then (p.loggers a.file).logs a.thread else [] := by
    rw [heq, ← filter_map_pair]
    unfold loggedFrom
    rw [List.filter_append, List.map_append]
  by_cases hfile : a.file = .echoserver
  · rw [hfile, Function.update_self] at hechoserver
    rw [if_pos hfile, hfile] at hlogged
    rw [hfile] at hlogger
    exact .inl ⟨hfile, hechoserver ▸ hlogger, hlogged⟩
  · rw [Function.update_of_ne (Ne.symm hfile)] at hechoserver
    rw [if_neg hfile, List.append_nil] at hlogged
    exact .inr ⟨hfile, hechoserver, hlogged⟩

theorem Recording.step (hp : p.Recording) (hopen : a.label.failsToOpen = false) (h : p.step a = some p') :
    p'.Recording := by
  have hcases := echoserver_cases h
  obtain ⟨logger, hlogger, rfl⟩ := step_cases h
  refine ⟨?_, ?_, ?_, ?_⟩
  · exact (Function.forall_update_iff _ fun _ (s : Logger) => s.Sound).mpr
      ⟨(hp.sound a.file).step hlogger, fun file _ => hp.sound file⟩
  · refine (Function.forall_update_iff _ fun file (s : Logger) => file ≠ .echoserver →
      s.inner.asyncThread = none).mpr ⟨fun hne => ?_, fun file _ => hp.others file⟩
    rw [Logger.asyncThread_step hlogger, hp.others a.file hne]
  · rcases hcases with ⟨-, hstep, -⟩ | ⟨-, heq, -⟩
    · exact hp.switched.step hopen hstep
    · rw [heq]
      exact hp.switched
  · rcases hcases with ⟨-, hstep, hlogged⟩ | ⟨-, heq, hlogged⟩
    · rw [hlogged, (hp.sound .echoserver).pushed_step hp.switched hstep, ← hp.pushed]
      rfl
    · rw [hlogged, heq, hp.pushed]

theorem Recording.torn_step (hp : p.Recording) (h : p.step a = some p') :
    p'.echoserver.history.torn = (p.echoserver.history.torn || a.label.tears) := by
  rcases echoserver_cases h with ⟨-, hstep, -⟩ | ⟨hfile, heq, -⟩
  · exact (hp.sound .echoserver).torn_step hstep
  · obtain ⟨logger, hlogger, -⟩ := step_cases h
    rw [heq, (hp.sound a.file).tears_eq_false (hp.others a.file hfile) hlogger, Bool.or_false]

/-- Records of another source file are missing, and so are those that the stream did not take. -/
theorem Recording.complete_iff_torn (hp : p.Recording) :
    p.Complete ↔ (∀ entry ∈ p.logged, entry.1 = .echoserver) ∧ p.echoserver.history.torn = false := by
  have hs : p.echoserver.Sound := hp.sound .echoserver
  have hlength : p.echoserver.history.pushed.length = (p.logged.filter (·.1 = .echoserver)).length := by
    rw [hp.pushed, loggedFrom, List.length_map]
  constructor
  · intro hcomplete
    have hall := congrArg List.length hcomplete.logged
    rw [List.length_append, List.length_map] at hall
    have htorn : p.echoserver.history.torn = false := by
      by_contra htorn
      obtain ⟨-, hlt⟩ := hs.held.torn ((Bool.not_eq_false _).mp htorn)
      change p.echoserver.history.written.length + p.echoserver.pending.length
        < p.echoserver.history.pushed.length at hlt
      have hle := List.length_filter_le (·.1 = SourceFile.echoserver) p.logged
      omega
    rw [← List.length_append, (hs.nothingLost_iff_torn.mpr htorn).pushed, hlength,
      List.length_filter_eq_length_iff] at hall
    exact ⟨fun entry hentry => of_decide_eq_true (hall entry hentry), htorn⟩
  · rintro ⟨hall, htorn⟩
    have hlost := hs.nothingLost_iff_torn.mpr htorn
    refine ⟨hlost.contents, ?_⟩
    rw [hlost.pushed, hp.pushed, loggedFrom,
      List.filter_eq_self.mpr fun entry hentry => decide_eq_true (hall entry hentry)]

/-- **The log is complete as long as every call goes through the `Logger` of `echoserver.cpp`** and the
stream does not fail in the middle of a record, and not otherwise. -/
theorem complete_iff {as : List LogStep}
    (h : Machine.run Program.step (fun _ a => a.label.failsToOpen = false) (startAasync thread) as = some p) :
    p.Complete ↔ (∀ entry ∈ p.logged, entry.1 = .echoserver) ∧ ∀ a ∈ as, a.label.tears = false := by
  obtain ⟨hp, htorn⟩ := Machine.run_any (fun p a p' (hp : p.Recording) hopen hstep =>
    ⟨hp.step hopen hstep, hp.torn_step hstep⟩) recording_startAasync h
  have hnew : (startAasync thread).echoserver.history.torn = false := rfl
  rw [hp.complete_iff_torn, htorn, hnew, Bool.false_or, List.any_eq_false]
  simp only [Bool.not_eq_true]

/-- A thread calls `Log` and executes some of its statements. -/
def calls (file : SourceFile) (thread : Nat) (call : LogCall) (statements : Nat) : List LogStep :=
  ⟨file, thread, .log call⟩ :: List.replicate statements ⟨file, thread, .tau⟩

/-- The file is opened, `main` logs its configuration, `AsyncThreadFunc` its `Info`, and then it drains one of
the two records. -/
def mainLogs : List LogStep :=
  ⟨.echoserver, 1, .openFile none⟩ ::
    calls .echoserver 0 ⟨.info, "main", "",
      "ADDR = 0.0.0.0 PORT = 8080 THREAD_NUM = 8 IS_ASYNC_LOGGER = 1 LOG_FILE = log"⟩ 10 ++
    List.replicate 12 ⟨.echoserver, 1, .tau⟩ ++ [⟨.echoserver, 1, .write none⟩, ⟨.echoserver, 1, .tau⟩]

theorem complete_iff_main : ∃ p,
    Machine.run Program.step (fun _ a => a.label.failsToOpen = false) (startAasync 1) mainLogs = some p ∧
      (p.logged.length, p.echoserver.inner.buffer.length) = (2, 1) ∧ p.Complete := by
  have hview : (Machine.run Program.step (fun _ a => a.label.failsToOpen = false) (startAasync 1)
      mainLogs).map (fun p => (p.logged.map (·.1), p.echoserver.inner.buffer.length))
        = some ([.echoserver, .echoserver], 1) := rfl
  obtain ⟨p, hp, hlogged⟩ := Option.map_eq_some_iff.mp hview
  obtain ⟨hfiles, hbuffer⟩ := Prod.mk.inj hlogged
  refine ⟨p, hp, ?_, (complete_iff hp).mpr ⟨fun entry hentry => ?_, by decide⟩⟩
  · have hlength := congrArg List.length hfiles
    rw [List.length_map] at hlength
    rw [hlength, hbuffer]
    rfl
  · have hmem := List.mem_map_of_mem (f := (·.1)) hentry
    rw [hfiles] at hmem
    simpa using hmem

/-- The file is opened, and a write to a client that has closed its connection fails. -/
def connectionLogs : List LogStep :=
  ⟨.echoserver, 1, .openFile none⟩ ::
    calls .connection 2 ⟨.error, "Connection::WriteNonBlocking", "Connection reset by peer", "send failed"⟩ 5

/-- The record is in no queue. -/
theorem unrecorded : ∃ p,
    Machine.run Program.step (fun _ a => a.label.failsToOpen = false) (startAasync 1) connectionLogs = some p ∧
      p.logged = [(.connection,
        "LEVEL[ERROR] name[Connection::WriteNonBlocking] err:Connection reset by peer message: send failed\n")] ∧
      p.echoserver.inner.targetStream.contents = "" ∧ p.echoserver.inner.buffer = [] ∧
      (p.loggers .connection).inner.buffer = [] ∧ (p.loggers .connection).pcs 2 = .idle ∧ ¬p.Complete := by
  have hview : (Machine.run Program.step (fun _ a => a.label.failsToOpen = false) (startAasync 1)
      connectionLogs).map (fun p => (p.logged, p.echoserver.inner.targetStream.contents,
        p.echoserver.inner.buffer, (p.loggers .connection).inner.buffer, (p.loggers .connection).pcs 2,
        p.echoserver.history.written ++ p.echoserver.pending))
      = some ([(.connection,
          "LEVEL[ERROR] name[Connection::WriteNonBlocking] err:Connection reset by peer message: send failed\n")],
        "", [], [], .idle, []) := rfl
  obtain ⟨p, hp, hlost⟩ := Option.map_eq_some_iff.mp hview
  simp only [Prod.mk.injEq] at hlost
  obtain ⟨hlogged, hcontents, hbuffer, hbuffer', hpc, hrecords⟩ := hlost
  refine ⟨p, hp, hlogged, hcontents, hbuffer, hbuffer', hpc, fun hcomplete => ?_⟩
  have hall := hcomplete.logged
  rw [hrecords, hlogged] at hall
  cases hall

end Program

end EpollServer
