import EpollServer.Proof.Logger

/-!
# What a logger loses

The records written, followed by those that the drain is not through with, are the records pushed, until the
stream fails in the middle of a record. The drain pops that record, so it is in the file in part only, and no
later step brings it back.
-/

namespace EpollServer

namespace LoggerPc

/-- The program points of the thread that `StartAasync` creates. -/
def inAsyncThreadFunc : LoggerPc → Bool
  | .asyncThreadFunc | .drain _ | .setFailed | .log _ _ .drain | .log _ _ .setFailed => true
  | _ => false

/-- The program points of `AsyncThreadFunc` after the file could not be opened. -/
def openFailed : LoggerPc → Bool
  | .setFailed | .log _ _ .setFailed => true
  | _ => false

end LoggerPc

def LogLabel.failsToOpen : LogLabel → Bool
  | .openFile (some _) => true
  | _ => false

/-- The members that say where records go are the same. -/
structure LoggerInner.SameMode (l l' : LoggerInner) : Prop where
  isAsync : l'.isAsync = l.isAsync
  asyncThreadFailed : l'.asyncThreadFailed = l.asyncThreadFailed
  asyncThread : l'.asyncThread = l.asyncThread

/-- What a statement can do to the members that the mutex does not protect, and where the thread can be
afterwards. -/
structure LoggerInner.Frame (l : LoggerInner) (pc : LoggerPc) (label : LogLabel) (l' : LoggerInner)
    (pc' : LoggerPc) : Prop where
  asyncThread : l'.asyncThread = l.asyncThread
  opened : pc' ≠ .asyncThreadFunc
  async : pc'.inAsyncThreadFunc = true → pc.inAsyncThreadFunc = true
  stream : pc.inAsyncThreadFunc = false → l'.targetStream = l.targetStream
  mode : label.failsToOpen = false → pc.openFailed = false → l.SameMode l' ∧ pc'.openFailed = false

namespace LoggerInner

variable {l l' : LoggerInner} {thread : Nat} {pc' : LoggerPc} {label : LogLabel}

/-- The thread is in the same call of `Log`, or has returned from it. -/
def StaysInLog (call : LogCall) (ret : LogReturn) (pc' : LoggerPc) : Prop :=
  pc' = ret.pc ∨ ∃ pc, pc' = .log call pc ret

theorem acquire_eq_some {pc : LoggerPc} (h : l.acquire thread pc = some (l', pc')) :
    l' = { l with mu := some thread } ∧ pc' = pc := by
  obtain ⟨-, heq⟩ := Option.ite_none_right_eq_some.mp h
  cases heq
  exact ⟨rfl, rfl⟩

theorem advanceLog_leaves {call : LogCall} {pc : LogPc} {ret : LogReturn}
    (h : l.advanceLog thread call pc ret = some (l', pc')) :
    l.SameMode l' ∧ l'.targetStream = l.targetStream ∧ StaysInLog call ret pc' := by
  cases pc with
  | testLevel =>
      cases h
      refine ⟨⟨rfl, rfl, rfl⟩, rfl, ?_⟩
      split
      · exact .inl rfl
      · exact .inr ⟨_, rfl⟩
  | testAsync =>
      cases h
      refine ⟨⟨rfl, rfl, rfl⟩, rfl, ?_⟩
      split
      · exact .inr ⟨_, rfl⟩
      · exact .inl rfl
  | lockCout | lock =>
      obtain ⟨rfl, rfl⟩ := acquire_eq_some h
      exact ⟨⟨rfl, rfl, rfl⟩, rfl, .inr ⟨_, rfl⟩⟩
  | unlock =>
      cases h
      exact ⟨⟨rfl, rfl, rfl⟩, rfl, .inl rfl⟩
  | print | unlockCout | format | push | clear =>
      cases h
      exact ⟨⟨rfl, rfl, rfl⟩, rfl, .inr ⟨_, rfl⟩⟩

theorem advanceDrain_leaves {pc : DrainPc} (h : l.advanceDrain thread pc label = some (l', pc')) :
    l.SameMode l' ∧ ∃ pc₁, pc' = .drain pc₁ := by
  unfold advanceDrain at h
  split at h
  · obtain ⟨rfl, rfl⟩ := acquire_eq_some h
    exact ⟨⟨rfl, rfl, rfl⟩, _, rfl⟩
  · cases h
    exact ⟨⟨rfl, rfl, rfl⟩, _, rfl⟩
  · obtain ⟨front, -, h⟩ := Option.bind_eq_some_iff.mp h
    obtain ⟨stream, -, h⟩ := Option.bind_eq_some_iff.mp h
    cases h
    exact ⟨⟨rfl, rfl, rfl⟩, _, rfl⟩
  · obtain ⟨-, h⟩ := Option.ite_none_left_eq_some.mp h
    cases h
    exact ⟨⟨rfl, rfl, rfl⟩, _, rfl⟩
  · cases h
    exact ⟨⟨rfl, rfl, rfl⟩, _, rfl⟩
  · cases h
    exact ⟨⟨rfl, rfl, rfl⟩, _, rfl⟩
  · cases h
    exact ⟨⟨rfl, rfl, rfl⟩, _, rfl⟩
  · cases h

/-- A call of `Log` leaves `AsyncThreadFunc` where it was. -/
theorem frame_log {call : LogCall} {pc : LogPc} {ret : LogReturn}
    (h : l.advanceLog thread call pc ret = some (l', pc')) :
    l.Frame (.log call pc ret) .tau l' pc' := by
  obtain ⟨hmode, hstream, rfl | ⟨pc₁, rfl⟩⟩ := advanceLog_leaves h
  · exact {
      asyncThread := hmode.asyncThread
      opened := by cases ret <;> nofun
      async := by cases ret <;> simp [LogReturn.pc, LoggerPc.inAsyncThreadFunc]
      stream := fun _ => hstream
      mode := fun _ hpc => ⟨hmode, by cases ret <;> simp [LogReturn.pc, LoggerPc.openFailed] at hpc ⊢⟩ }
  · exact {
      asyncThread := hmode.asyncThread
      opened := nofun
      async := by cases ret <;> exact id
      stream := fun _ => hstream
      mode := fun _ hpc => ⟨hmode, by cases ret <;> exact hpc⟩ }

/-- **What a statement leaves alone outside of the mutex.** -/
theorem advance_frame {pc : LoggerPc} (h : l.advance thread pc label = some (l', pc')) :
    l.Frame pc label l' pc' := by
  unfold advance at h
  split at h
  · cases h
    exact ⟨rfl, nofun, nofun, fun _ => rfl, fun _ _ => ⟨⟨rfl, rfl, rfl⟩, rfl⟩⟩
  · cases h
    exact ⟨rfl, nofun, nofun, fun _ => rfl, fun _ _ => ⟨⟨rfl, rfl, rfl⟩, rfl⟩⟩
  · exact frame_log h
  · cases h
    exact ⟨rfl, nofun, fun _ => rfl, nofun, fun _ _ => ⟨⟨rfl, rfl, rfl⟩, rfl⟩⟩
  · cases h
    exact ⟨rfl, nofun, fun _ => rfl, nofun, nofun⟩
  · obtain ⟨hmode, pc₁, rfl⟩ := advanceDrain_leaves h
    exact ⟨hmode.asyncThread, nofun, fun _ => rfl, nofun, fun _ _ => ⟨hmode, rfl⟩⟩
  · cases h
    exact ⟨rfl, nofun, nofun, nofun, nofun⟩
  · cases h

end LoggerInner

namespace Logger

variable {s s' t : Logger} {action : Nat × LogLabel} {isPrintCout : Bool} {thread : Nat}

/-- What holds of a logger in every run, before the file is open and after. -/
structure Sound (s : Logger) : Prop where
  excludes : Mutex.Excludes LoggerPc.inside s.inner.mu s.pcs
  guards : Mutex.Guards (Guarded.Held .idle) Guarded.Held s.inner.mu s.pcs (s.inner.guarded s.history)
  async : ∀ u, (s.pcs u).inAsyncThreadFunc = true → s.inner.asyncThread = some u
  opening : ∀ u, s.pcs u = .asyncThreadFunc → s.inner.targetStream = .empty

theorem step_cases (h : s.step action = some s') : ∃ inner pc,
    s.inner.advance action.1 (s.pcs action.1) action.2 = some (inner, pc) ∧
      s' = ⟨inner, Function.update s.pcs action.1 pc,
        s.history.record s.inner (s.pcs action.1) action.2⟩ := by
  obtain ⟨⟨inner, pc⟩, hadvance, h⟩ := Option.bind_eq_some_iff.mp h
  exact ⟨inner, pc, hadvance, (Option.some.inj h).symm⟩

theorem sound_new : (new isPrintCout).Sound where
  excludes := fun _ => ⟨nofun, nofun⟩
  guards := ⟨rfl, nofun, rfl, fun _ => ⟨rfl, rfl⟩, nofun⟩
  async := nofun
  opening := fun _ _ => rfl

theorem sound_startAasync : ((new isPrintCout).startAasync thread).Sound where
  excludes := (@sound_new isPrintCout).excludes.keep rfl
  guards := ⟨rfl, nofun, rfl, fun _ => ⟨rfl, rfl⟩, nofun⟩
  async := (Function.forall_update_iff _ fun u (pc : LoggerPc) => pc.inAsyncThreadFunc = true →
    some thread = some u).mpr ⟨fun _ => rfl, fun _ _ => nofun⟩
  opening := fun _ _ => rfl

theorem Sound.step (hs : s.Sound) (h : s.step action = some s') : s'.Sound := by
  obtain ⟨inner, pc, hadvance, rfl⟩ := step_cases h
  have hmove := LoggerInner.advance_cases (h := s.history) (hs.opening action.1) hadvance
  have hframe := LoggerInner.advance_frame hadvance
  refine ⟨hmove.excludes hs.excludes, hmove.guards hs.excludes hs.guards, ?_, ?_⟩
  · change ∀ u, (Function.update s.pcs action.1 pc u).inAsyncThreadFunc = true → inner.asyncThread = some u
    rw [Function.forall_update_iff s.pcs fun u (pc : LoggerPc) => pc.inAsyncThreadFunc = true →
      inner.asyncThread = some u, hframe.asyncThread]
    exact ⟨fun hin => hs.async _ (hframe.async hin), fun u _ => hs.async u⟩
  · refine (Function.forall_update_iff s.pcs fun _ (pc : LoggerPc) => pc = .asyncThreadFunc →
      inner.targetStream = .empty).mpr ⟨fun hpc => absurd hpc hframe.opened, fun u hne hu => ?_⟩
    -- The file is opened by one thread only, so the thread that moves is not in `AsyncThreadFunc`.
    have hother : (s.pcs action.1).inAsyncThreadFunc = false := by
      refine Bool.eq_false_iff.mpr fun hin => hne ?_
      have hopening := hs.async u (by rw [hu]; rfl)
      exact Option.some.inj (hopening.symm.trans (hs.async _ hin))
    rw [hframe.stream hother]
    exact hs.opening u hu

/-- Where the thread is that holds the mutex. -/
def ownerPc (s : Logger) : LoggerPc :=
  match s.inner.mu with
  | none => .idle
  | some u => s.pcs u

/-- The queue, without the record in front of it while the drain is between writing and popping it. -/
def pending (s : Logger) : List String := s.ownerPc.pending s.inner.buffer

/-- **The law of the asynchronous log.** The file contains the records that were written, and these, followed
by the queue, are the records that were pushed. Only records that were written have left the queue. -/
structure NothingLost (s : Logger) : Prop where
  contents : s.inner.targetStream.contents = drained s.history.written
  pushed : s.history.written ++ s.pending = s.history.pushed
  popped : s.history.popped <+: s.history.written

theorem Sound.held (hs : s.Sound) : Guarded.Held s.ownerPc (s.inner.guarded s.history) := by
  have hguards := hs.guards
  unfold Mutex.Guards at hguards
  unfold ownerPc
  cases hmu : s.inner.mu with
  | none => simpa [hmu] using hguards
  | some u => simpa [hmu] using hguards

theorem inHand_append_pending (pc : LoggerPc) (buffer : List String) :
    pc.inHand buffer ++ pc.pending buffer = buffer := by
  unfold LoggerPc.inHand LoggerPc.pending
  split
  · rw [← List.drop_one, List.take_append_drop]
  · rfl

theorem Sound.nothingLost_iff_torn (hs : s.Sound) : s.NothingLost ↔ s.history.torn = false := by
  constructor
  · intro hlost
    by_contra htorn
    obtain ⟨-, hlt⟩ := hs.held.torn ((Bool.not_eq_false _).mp htorn)
    change s.history.written.length + s.pending.length < s.history.pushed.length at hlt
    rw [← hlost.pushed, List.length_append] at hlt
    exact Nat.lt_irrefl _ hlt
  · intro htorn
    obtain ⟨hwritten, hcontents⟩ := hs.held.intact htorn
    change s.history.written = s.history.popped ++ s.ownerPc.inHand s.inner.buffer at hwritten
    refine ⟨hcontents, ?_, hwritten ▸ List.prefix_append _ _⟩
    calc
      s.history.written ++ s.pending =
          s.history.popped ++ (s.ownerPc.inHand s.inner.buffer ++ s.pending) := by
        rw [hwritten, List.append_assoc]
      _ = s.history.popped ++ s.inner.buffer := by rw [pending, inHand_append_pending]
      _ = s.history.pushed := hs.held.queue

theorem Sound.torn_step (hs : s.Sound) (h : s.step action = some s') :
    s'.history.torn = (s.history.torn || action.2.tears) := by
  obtain ⟨inner, pc, hadvance, rfl⟩ := step_cases h
  exact (LoggerInner.advance_cases (h := s.history) (hs.opening action.1) hadvance).torn_eq

/-- **Nothing is lost as long as the stream does not fail in the middle of a record**, whichever threads log
in between and wherever else the stream fails; and a record is lost as soon as it does. -/
theorem nothingLost_iff {as : List (Nat × LogLabel)}
    (h : Machine.run Logger.step (fun _ _ => True) ((new isPrintCout).startAasync thread) as = some t) :
    t.NothingLost ↔ ∀ action ∈ as, action.2.tears = false := by
  obtain ⟨ht, htorn⟩ := Machine.run_any (fun s action s' (hs : s.Sound) _ hstep =>
    ⟨hs.step hstep, hs.torn_step hstep⟩) sound_startAasync h
  have hnew : ((new isPrintCout).startAasync thread).history.torn = false := rfl
  rw [ht.nothingLost_iff_torn, htorn, hnew, Bool.false_or, List.any_eq_false]
  simp only [Bool.not_eq_true]

/-- The file is open, `AsyncThreadFunc` has logged its `Info` and is about to write it. -/
def opening : List (Nat × LogLabel) := (1, .openFile none) :: List.replicate 12 (1, .tau)

/-- A record is written, then the stream fails in a flush, and another thread logs. -/
def flushFails : List (Nat × LogLabel) :=
  opening ++ [(1, .write none), (1, .tau), (1, .tau), (1, .flush false), (1, .tau),
    (2, .log ⟨.error, "Connection::WriteNonBlocking", "Connection reset by peer", "send failed"⟩)] ++
    List.replicate 10 (2, .tau) ++ List.replicate 5 (1, .tau)

theorem nothingLost_iff_flush : ∃ t,
    Machine.run Logger.step (fun _ _ => True) ((new true).startAasync 1) flushFails = some t ∧
      (t.history.written.length, t.inner.buffer.length) = (1, 1) ∧ t.NothingLost := by
  have hview : (Machine.run Logger.step (fun _ _ => True) ((new true).startAasync 1) flushFails).map
      (fun t => (t.history.written.length, t.inner.buffer.length)) = some (1, 1) := rfl
  obtain ⟨t, ht, hlengths⟩ := Option.map_eq_some_iff.mp hview
  exact ⟨t, ht, hlengths, (nothingLost_iff ht).mpr (by decide)⟩

/-- The stream fails before the first character of a record. -/
def writeFails : List (Nat × LogLabel) := opening ++ [(1, .write (some 0)), (1, .tau)]

/-- The record is neither in the file nor in the queue. -/
theorem lost_record : ∃ t,
    Machine.run Logger.step (fun _ _ => True) ((new true).startAasync 1) writeFails = some t ∧
      t.history.pushed = [asyncThreadRunning.record] ∧ t.inner.targetStream.contents = "" ∧
      t.inner.buffer = [] ∧ ¬t.NothingLost := by
  have hview : (Machine.run Logger.step (fun _ _ => True) ((new true).startAasync 1) writeFails).map
      (fun t => (t.history.pushed, t.history.written, t.inner.targetStream.contents, t.inner.buffer,
        t.pending)) = some ([asyncThreadRunning.record], [], "", [], []) := rfl
  obtain ⟨t, ht, hlost⟩ := Option.map_eq_some_iff.mp hview
  simp only [Prod.mk.injEq] at hlost
  obtain ⟨hpushed, hwritten, hcontents, hbuffer, hpending⟩ := hlost
  refine ⟨t, ht, hpushed, hcontents, hbuffer, fun h => ?_⟩
  have hall := h.pushed
  rw [hpushed, hwritten, hpending] at hall
  cases hall

end Logger

end EpollServer
