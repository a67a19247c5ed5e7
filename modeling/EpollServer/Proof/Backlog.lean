import EpollServer.Proof.Locking
import EpollServer.Proof.Logging

/-!
# The backlog of a logger

A pass of the drain writes `max_size` records, or as many as there are, however many records arrive in the
meantime. So the records of a moment are in the file after as many passes as they fill, as long as the stream
takes them. Once it has failed, nobody notices: the records are queued as before, and none is written.
-/

namespace EpollServer

/-- An operation on the stream that fails. -/
def LogLabel.failsStream : LogLabel → Bool
  | .write (some _) | .flush false => true
  | _ => false

/-- The records that the current pass of the drain has popped, where a pass that is over counts in full. -/
def LoggerPc.progress : LoggerPc → Nat
  | .drain (.test cnt) => cnt
  | .drain (.write cnt) | .drain (.pop cnt) => cnt - 1
  | .drain .flush => maxSize
  | _ => 0

/-- The owner of the mutex is the drain. -/
def LoggerPc.isDrain : LoggerPc → Bool
  | .drain _ => true
  | _ => false

namespace LoggerPc

variable {pc : LoggerPc} {d : Guarded}

theorem Counts.progress_le (h : pc.Counts d) : pc.progress ≤ maxSize * pc.isDrain.toNat := by
  cases pc with
  | drain pc =>
      change _ ≤ maxSize * 1
      rw [Nat.mul_one]
      cases pc with
      | test cnt => exact h
      | write cnt | pop cnt => exact Nat.le_trans (Nat.sub_le ..) h.2.1
      | flush => exact Nat.le_refl _
      | lock | unlock | sleep => exact Nat.zero_le _
  | idle | log | terminate | asyncThreadFunc | setFailed => exact Nat.zero_le _

theorem progress_of_isEntry (h : pc.isEntry = true) : pc.progress = 0 := by
  unfold isEntry at h
  split at h
  · rfl
  · rfl
  · rfl
  · cases h

theorem isPop_of_isEntry (h : pc.isEntry = true) : pc.isPop = false := by
  unfold isEntry at h
  split at h
  · rfl
  · rfl
  · rfl
  · cases h

theorem isPop_of_isExit (h : pc.isExit = true) : pc.isPop = false := by
  unfold isExit at h
  split at h
  · rfl
  · rfl
  · rfl
  · cases h

end LoggerPc

theorem TargetStream.flush_eq_self {stream : TargetStream} (hfailed : stream.failed = true) (ok : Bool) :
    stream.flush ok = stream := by
  obtain ⟨contents, failed⟩ := stream
  change failed = true at hfailed
  rw [flush, hfailed, Bool.true_or]

namespace LogHistory

/-- What was pushed stays pushed, and what was popped stays popped. -/
structure Extends (h h' : LogHistory) : Prop where
  pushed : h.pushed <+: h'.pushed
  popped : h.popped <+: h'.popped

theorem Extends.refl (h : LogHistory) : h.Extends h := ⟨List.prefix_rfl, List.prefix_rfl⟩

theorem Extends.trans {h₁ h₂ h₃ : LogHistory} (h : h₁.Extends h₂) (h' : h₂.Extends h₃) :
    h₁.Extends h₃ :=
  ⟨h.pushed.trans h'.pushed, h.popped.trans h'.popped⟩

end LogHistory

namespace Guarded

variable {pc pc' : LoggerPc} {label : LogLabel} {d d' : Guarded} {q e x : Nat}

theorem Step.grows (h : Step pc label d pc' d') : d.history.Extends d'.history := by
  cases h with
  | push => exact ⟨List.prefix_append _ _, List.prefix_rfl⟩
  | pop => exact ⟨List.prefix_rfl, List.prefix_append _ _⟩
  | print | format | clear | write | skip | done | written | torn | ignored | flush =>
      exact ⟨List.prefix_rfl, List.prefix_rfl⟩

theorem Step.good (h : Step pc label d pc' d') (hlabel : label.failsStream = false)
    (hgood : d.targetStream.failed = false) : d'.targetStream.failed = false := by
  cases h with
  | written => rfl
  | torn => cases hlabel
  | @flush _ ok =>
      cases ok with
      | true =>
          change (d.targetStream.failed || !true) = false
          rw [hgood]
          rfl
      | false => cases hlabel
  | print | format | push | clear | write | skip | done | ignored | pop => exact hgood

/-- **What a statement of the drain contributes to a pass**, while the stream is good. The queue is empty or the
pass is over when it stops popping; `e` is what the first pass of a run may lack. -/
theorem Step.pays (h : Step pc label d pc' d') (hheld : Held pc d) (hcounts : pc.Counts d)
    (hdone : ∀ cnt, pc = .drain (.test cnt) → pc' = .drain .flush → maxSize ≤ cnt ∨ d.buffer = [])
    (hgood : d.targetStream.failed = false) (hq : q ≤ d.history.pushed.length)
    (hx : min (q + e) (x + pc.progress) ≤ d.history.popped.length + e) :
    min (q + e) (x + maxSize * label.isFlush.toNat + pc'.progress) ≤ d'.history.popped.length + e := by
  cases h with
  | print | format | push | clear | write => exact hx
  | skip _ hfailed => exact absurd hfailed (by rw [hgood]; decide)
  | @done cnt _ =>
      change min (q + e) (x + maxSize * 0 + maxSize) ≤ _
      change min (q + e) (x + cnt) ≤ _ at hx
      rw [Nat.mul_zero]
      rcases hdone cnt rfl rfl with hmax | hempty
      · omega
      · have hqueue := hheld.queue
        rw [hempty, List.append_nil] at hqueue
        rw [hqueue]
        omega
  | written | torn | ignored => exact hx
  | @pop cnt _ front rest hbuffer =>
      obtain ⟨hpos, -, -⟩ := hcounts
      change min (q + e) (x + maxSize * 0 + cnt) ≤ (d.history.popped ++ [front]).length + e
      change min (q + e) (x + (cnt - 1)) ≤ _ at hx
      rw [List.length_append, List.length_singleton]
      omega
  | flush =>
      change min (q + e) (x + maxSize * 1 + 0) ≤ _
      rw [Nat.mul_one]
      exact hx

namespace Turn

theorem grows (h : Turn label pc d pc' d') : d.history.Extends d'.history := by
  cases h with
  | outside _ hdata | acquire _ _ hdata | release _ _ hdata =>
      rw [hdata]
      exact .refl _
  | inside hstep => exact hstep.grows

theorem good (h : Turn label pc d pc' d') (hlabel : label.failsStream = false)
    (hgood : d.targetStream.failed = false) : d'.targetStream.failed = false := by
  cases h with
  | outside _ hdata | acquire _ _ hdata | release _ _ hdata =>
      rw [hdata]
      exact hgood
  | inside hstep => exact hstep.good hlabel hgood

theorem pays (h : Turn label pc d pc' d') (hheld : Held pc d) (hcounts : pc.Counts d)
    (hgood : d.targetStream.failed = false) (hq : q ≤ d.history.pushed.length)
    (hx : min (q + e) (x + pc.progress) ≤ d.history.popped.length + e) :
    min (q + e) (x + maxSize * label.isFlush.toNat + pc'.progress) ≤ d'.history.popped.length + e := by
  cases h with
  | outside hpc hdata hlabel =>
      rw [hpc, hdata, hlabel]
      exact hx
  | acquire hpc hentry hdata hlabel =>
      rw [hpc] at hx
      rw [LoggerPc.progress_of_isEntry hentry, hdata, hlabel]
      exact hx
  | release hexit hpc hdata hlabel =>
      rw [hpc, hdata, hlabel]
      exact Nat.le_trans (by simp only [LoggerPc.progress, Bool.toNat_false]; omega) hx
  | inside hstep hdone => exact hstep.pays hheld hcounts hdone hgood hq hx

end Turn

/-- What a failed stream makes of the log: the records that are pushed stay in the queue. -/
structure Stalled (pc : LoggerPc) (d : Guarded) (pc' : LoggerPc) (d' : Guarded) : Prop where
  stream : d'.targetStream = d.targetStream
  written : d'.history.written = d.history.written
  queued : ∃ records, d'.history.pushed = d.history.pushed ++ records ∧
    pc'.pending d'.buffer = pc.pending d.buffer ++ records

theorem Stalled.of_eq (hpop : pc'.isPop = pc.isPop)
    (hstream : d'.targetStream = d.targetStream) (hbuffer : d'.buffer = d.buffer)
    (hhistory : d'.history = d.history) : Stalled pc d pc' d' where
  stream := hstream
  written := by rw [hhistory]
  queued := by
    refine ⟨[], by rw [hhistory, List.append_nil], ?_⟩
    rw [List.append_nil, LoggerPc.pending, LoggerPc.pending, hpop, hbuffer]

theorem Stalled.trans {pc₁ pc₂ pc₃ : LoggerPc} {d₁ d₂ d₃ : Guarded} (h : Stalled pc₁ d₁ pc₂ d₂)
    (h' : Stalled pc₂ d₂ pc₃ d₃) : Stalled pc₁ d₁ pc₃ d₃ where
  stream := h'.stream.trans h.stream
  written := h'.written.trans h.written
  queued := by
    obtain ⟨records, hpushed, hpending⟩ := h.queued
    obtain ⟨records', hpushed', hpending'⟩ := h'.queued
    refine ⟨records ++ records', ?_, ?_⟩
    · rw [hpushed', hpushed, List.append_assoc]
    · rw [hpending', hpending, List.append_assoc]

theorem Step.stalled (h : Step pc label d pc' d') (hheld : Held pc d)
    (hfailed : d.targetStream.failed = true) : Stalled pc d pc' d' := by
  cases h with
  | print | format | clear => exact .of_eq rfl rfl rfl rfl
  | skip | done => exact .of_eq rfl rfl rfl rfl
  | push => exact ⟨rfl, rfl, _, rfl, rfl⟩
  | write _ _ hgood | written _ hgood | torn _ hgood => exact absurd hfailed (by rw [hgood]; decide)
  | ignored => exact absurd hfailed (by rw [hheld.good rfl]; decide)
  | @pop cnt _ front rest hbuffer =>
      refine ⟨rfl, rfl, [], (List.append_nil _).symm, ?_⟩
      change rest = d.buffer.tail ++ []
      rw [hbuffer, List.tail_cons, List.append_nil]
  | flush => exact .of_eq rfl (TargetStream.flush_eq_self hfailed _) rfl rfl

theorem Turn.stalled (h : Turn label pc d pc' d') (hheld : Held pc d)
    (hfailed : d.targetStream.failed = true) : Stalled pc d pc' d' := by
  cases h with
  | outside hpc hdata =>
      subst hpc hdata
      exact .of_eq rfl rfl rfl rfl
  | acquire hpc hentry hdata =>
      subst hpc hdata
      exact .of_eq (LoggerPc.isPop_of_isEntry hentry) rfl rfl rfl
  | release hexit hpc hdata =>
      subst hpc hdata
      exact .of_eq (LoggerPc.isPop_of_isExit hexit).symm rfl rfl rfl
  | inside hstep => exact hstep.stalled hheld hfailed

end Guarded

namespace Logger

variable {s s' t : Logger} {action : Nat × LogLabel} {isPrintCout : Bool} {thread : Nat}

/-- After `n` passes from a state with this history, of which the first may lack the records that were popped
before. -/
structure Drains (history : LogHistory) (lacking : Nat) (n : Nat) (t : Logger) : Prop where
  orderly : t.Orderly
  good : t.inner.targetStream.failed = false
  grows : history.Extends t.history
  popped : min (history.pushed.length + maxSize * lacking)
      (history.popped.length + maxSize * n + t.ownerPc.progress) ≤
    t.history.popped.length + maxSize * lacking

theorem Drains.step {history : LogHistory} {lacking n : Nat} (hs : s.Drains history lacking n)
    (hlabel : action.2.failsStream = false) (h : s.step action = some s') :
    s'.Drains history lacking (n + action.2.isFlush.toNat) := by
  have hturn := hs.orderly.sound.turn h
  refine ⟨hs.orderly.step h, hturn.good hlabel hs.good, hs.grows.trans hturn.grows, ?_⟩
  have hpays := hturn.pays hs.orderly.sound.held hs.orderly.counts hs.good hs.grows.pushed.length_le hs.popped
  rw [Nat.mul_add, ← Nat.add_assoc]
  exact hpays

/-- **The drain catches up.** As long as the stream does not fail, the first `max_size * n` of the records that
are in the queue are in the file after `n` passes, in their order; a pass that has begun does not count. -/
theorem catches_up (hs : Machine.Reachable Logger.step (fun _ _ => True)
    (· = (new isPrintCout).startAasync thread) s) (hgood : s.inner.targetStream.failed = false)
    {as : List (Nat × LogLabel)}
    (hrun : Machine.run Logger.step (fun _ action => action.2.failsStream = false) s as = some t) :
    s.history.pushed.take (s.history.popped.length +
        maxSize * (as.countP (·.2.isFlush) - s.ownerPc.isDrain.toNat)) <+: t.history.written ∧
      t.inner.targetStream.contents = drained t.history.written := by
  have hs := orderly_of_reachable hs
  have hstart : s.Drains s.history s.ownerPc.isDrain.toNat 0 := by
    refine ⟨hs, hgood, .refl _, ?_⟩
    have hprogress := hs.counts.progress_le
    omega
  have hend := Machine.run_counts (fun n s action s' hs hlabel h => Drains.step hs hlabel h) hstart hrun
  have hheld := hend.orderly.sound.held
  obtain ⟨hwritten, hcontents⟩ := hheld.intact (hheld.torn_eq_false hend.good)
  refine ⟨?_, hcontents⟩
  have hpopped : t.history.popped <+: t.history.pushed := ⟨_, hheld.queue⟩
  have htaken : s.history.pushed.take (s.history.popped.length +
      maxSize * (as.countP (·.2.isFlush) - s.ownerPc.isDrain.toNat)) <+: t.history.popped := by
    refine List.prefix_of_prefix_length_le ((List.take_prefix _ _).trans hend.grows.pushed) hpopped ?_
    have hkept := hend.grows.popped.length_le
    have hle := hend.popped
    rw [List.length_take, Nat.mul_sub]
    rw [Nat.zero_add] at hle
    omega
  exact htaken.trans ⟨_, hwritten.symm⟩

/-- The first record of the drain is in the file, and another thread has logged one. -/
def secondRecord : List (Nat × LogLabel) :=
  opening ++ [(1, .write none), (1, .tau), (1, .tau), (1, .flush true), (1, .tau),
    (2, .log ⟨.error, "Connection::WriteNonBlocking", "Connection reset by peer", "send failed"⟩)] ++
    List.replicate 10 (2, .tau)

theorem catches_up_second : ∃ s t, s.history.pushed.length = 2 ∧ Machine.run Logger.step
    (fun _ action => action.2.failsStream = false) s [(1, .tau), (1, .tau), (1, .tau), (1, .write none),
      (1, .tau), (1, .tau), (1, .flush true)] = some t ∧ s.history.pushed <+: t.history.written := by
  have hview : (Machine.run Logger.step (fun _ _ => True) ((new true).startAasync 1) secondRecord).map
      (fun s => (s.inner.targetStream.failed, s.history.pushed.length, s.history.popped.length,
        s.ownerPc.isDrain, (Machine.run Logger.step (fun _ action => action.2.failsStream = false) s
          [(1, .tau), (1, .tau), (1, .tau), (1, .write none), (1, .tau), (1, .tau),
            (1, .flush true)]).isSome)) = some (false, 2, 1, false, true) := rfl
  obtain ⟨s, hrun, hend⟩ := Option.map_eq_some_iff.mp hview
  simp only [Prod.mk.injEq] at hend
  obtain ⟨hgood, hpushed, hpopped, howner, hmore⟩ := hend
  obtain ⟨t, hmore⟩ := Option.isSome_iff_exists.mp hmore
  refine ⟨s, t, hpushed, hmore, ?_⟩
  have hwritten := (catches_up (.run (.init rfl) hrun) hgood hmore).1
  rw [hpopped, howner] at hwritten
  rw [← List.take_of_length_le (l := s.history.pushed) (i := 1 + maxSize) (by rw [hpushed]; decide)]
  exact hwritten

/-- From `s` to `t` the stream has taken nothing. -/
structure Stalls (s t : Logger) : Prop where
  orderly : t.Orderly
  switched : t.Switched
  stalled : Guarded.Stalled s.ownerPc (s.inner.guarded s.history) t.ownerPc (t.inner.guarded t.history)

theorem Stalls.step {s₀ : Logger} (hs : s₀.Stalls s) (hfailed : s₀.inner.targetStream.failed = true)
    (hopen : action.2.failsToOpen = false)
    (h : s.step action = some s') : s₀.Stalls s' where
  orderly := hs.orderly.step h
  switched := hs.switched.step hopen h
  stalled := by
    have hstream : s.inner.targetStream = s₀.inner.targetStream := hs.stalled.stream
    have hstill : s.inner.targetStream.failed = true := by rw [hstream, hfailed]
    exact hs.stalled.trans ((hs.orderly.sound.turn h).stalled hs.orderly.sound.held hstill)

theorem switched_of_reachable (hs : Machine.Reachable Logger.step (fun _ action => action.2.failsToOpen = false)
    (· = (new isPrintCout).startAasync thread) s) : s.Switched := by
  induction hs with
  | init h =>
      subst h
      exact switched_startAasync
  | step _ hopen h ih => exact ih.step hopen h

/-- **Nobody notices that the stream has failed.** From then on the file stays as it is and every record that
is pushed stays in the queue; but the object remains asynchronous, so the threads go on pushing. -/
theorem accumulates (hs : Machine.Reachable Logger.step (fun _ action => action.2.failsToOpen = false)
    (· = (new isPrintCout).startAasync thread) s) (hfailed : s.inner.targetStream.failed = true)
    {as : List (Nat × LogLabel)}
    (hrun : Machine.run Logger.step (fun _ action => action.2.failsToOpen = false) s as = some t) :
    t.inner.targetStream = s.inner.targetStream ∧ t.history.written = s.history.written ∧
      (∃ records, t.history.pushed = s.history.pushed ++ records ∧ t.pending = s.pending ++ records) ∧
      t.inner.isAsync = true ∧ t.inner.asyncThreadFailed = false := by
  have hstart : s.Stalls s :=
    ⟨orderly_of_reachable (hs.mono (fun _ h => h) fun _ _ _ => trivial), switched_of_reachable hs,
      .of_eq rfl rfl rfl rfl⟩
  have hend : s.Stalls t := by
    have hreachable : Machine.Reachable Logger.step (fun _ action => action.2.failsToOpen = false) (· = s) t :=
      .run (.init rfl) hrun
    clear hrun
    induction hreachable with
    | init h =>
        subst h
        exact hstart
    | step _ hopen h ih => exact ih.step hfailed hopen h
  exact ⟨hend.stalled.stream, hend.stalled.written, hend.stalled.queued, hend.switched.isAsync,
    hend.switched.asyncThreadFailed⟩

/-- The first record is flushed in vain, then another thread logs. -/
theorem accumulates_flush : ∃ s t : Logger,
    (s.history.pushed.length, s.pending.length, t.history.pushed.length) = (1, 0, 2) ∧
      t.history.written = s.history.written ∧ ∃ records,
        t.history.pushed = s.history.pushed ++ records ∧ t.pending = s.pending ++ records := by
  have hview : (Machine.run Logger.step (fun _ action => action.2.failsToOpen = false)
      ((new true).startAasync 1) (flushFails.take 18)).map (fun s => (s.inner.targetStream.failed,
        (s.history.pushed.length, s.pending.length), (Machine.run Logger.step
          (fun _ action => action.2.failsToOpen = false) s (flushFails.drop 18)).map
            fun t => t.history.pushed.length)) = some (true, (1, 0), some 2) := rfl
  obtain ⟨s, hrun, hend⟩ := Option.map_eq_some_iff.mp hview
  obtain ⟨hfailed, hend⟩ := Prod.mk.inj hend
  obtain ⟨hlengths, hmore⟩ := Prod.mk.inj hend
  obtain ⟨t, hmore, hlength⟩ := Option.map_eq_some_iff.mp hmore
  obtain ⟨-, hwritten, hqueued, -⟩ := accumulates (.run (.init rfl) hrun) hfailed hmore
  obtain ⟨hpushed, hpending⟩ := Prod.mk.inj hlengths
  exact ⟨s, t, by rw [hpushed, hpending, hlength], hwritten, hqueued⟩

end Logger

end EpollServer
