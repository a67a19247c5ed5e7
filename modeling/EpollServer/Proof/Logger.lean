import EpollServer.Lib.Machine
import EpollServer.Lib.Mutex
import EpollServer.Logger

/-!
# The critical sections of a logger

The queue, `oss`, the stream and the history of the records change only under the mutex. So what holds of them
is one property for each program point: between two critical sections the records written are those that
were popped, and inside the drain a record that was just written is still in front of the queue. A stream
that fails in the middle of a record breaks this for good, since that record is popped like the others.
-/

namespace EpollServer

/-- A step that makes the stream fail in the middle of a record. -/
def LogLabel.tears : LogLabel → Bool
  | .write (some _) => true
  | _ => false

/-- The program points of `Log` at which the mutex is held. -/
def LogPc.inside : LogPc → Bool
  | .print | .unlockCout | .format | .push | .clear | .unlock => true
  | _ => false

/-- The program points of `AsyncThreadFunc` at which the mutex is held. -/
def DrainPc.inside : DrainPc → Bool
  | .test _ | .write _ | .pop _ | .flush | .unlock => true
  | _ => false

namespace LoggerPc

def inside : LoggerPc → Bool
  | .log _ pc _ => pc.inside
  | .drain pc => pc.inside
  | _ => false

/-- The thread has just taken the mutex. -/
def isEntry : LoggerPc → Bool
  | .log _ .print _ | .log _ .format _ | .drain (.test 0) => true
  | _ => false

/-- The thread is about to give the mutex back. -/
def isExit : LoggerPc → Bool
  | .log _ .unlockCout _ | .log _ .unlock _ | .drain .unlock => true
  | _ => false

/-- The thread has written the record in front of the queue. -/
def isPop : LoggerPc → Bool
  | .drain (.pop _) => true
  | _ => false

end LoggerPc

@[simp]
theorem LogReturn.inside_pc (ret : LogReturn) : ret.pc.inside = false := by cases ret <;> rfl

/-- What the mutex protects. -/
structure Guarded where
  buffer : List String
  oss : String
  targetStream : TargetStream
  history : LogHistory

def LoggerInner.guarded (l : LoggerInner) (history : LogHistory) : Guarded where
  buffer := l.buffer
  oss := l.oss
  targetStream := l.targetStream
  history := history

/-- The statements inside of the critical sections. -/
inductive Guarded.Step : LoggerPc → LogLabel → Guarded → LoggerPc → Guarded → Prop
  | print {call ret d} : Step (.log call .print ret) .tau d (.log call .unlockCout ret) d
  | format {call ret d} : Step (.log call .format ret) .tau d (.log call .push ret)
      { d with oss := d.oss ++ call.record }
  | push {call ret d} : Step (.log call .push ret) .tau d (.log call .clear ret)
      { d with
        buffer := d.buffer ++ [d.oss]
        history := { d.history with pushed := d.history.pushed ++ [d.oss] } }
  | clear {call ret d} : Step (.log call .clear ret) .tau d (.log call .unlock ret) { d with oss := "" }
  | write {cnt d} (hcnt : cnt < maxSize) (hbuffer : d.buffer ≠ []) (hgood : d.targetStream.failed = false) :
      Step (.drain (.test cnt)) .tau d (.drain (.write (cnt + 1))) d
  | skip {cnt d} (hcnt : cnt < maxSize) (hfailed : d.targetStream.failed = true) :
      Step (.drain (.test cnt)) .tau d (.drain (.test (cnt + 1))) d
  | done {cnt d} : Step (.drain (.test cnt)) .tau d (.drain .flush) d
  | written {cnt d front rest} (hbuffer : d.buffer = front :: rest)
      (hgood : d.targetStream.failed = false) :
      Step (.drain (.write cnt)) (.write none) d (.drain (.pop cnt))
        { d with
          targetStream := ⟨d.targetStream.contents ++ (front ++ "\n"), false⟩
          history := { d.history with written := d.history.written ++ [front] } }
  | torn {cnt d front rest n} (hbuffer : d.buffer = front :: rest)
      (hgood : d.targetStream.failed = false) (hn : n < (front ++ "\n").length) :
      Step (.drain (.write cnt)) (.write (some n)) d (.drain (.pop cnt))
        { d with
          targetStream := ⟨d.targetStream.contents ++ String.ofList ((front ++ "\n").toList.take n), true⟩
          history := { d.history with torn := true } }
  | ignored {cnt d front rest cut} (hbuffer : d.buffer = front :: rest)
      (hfailed : d.targetStream.failed = true) :
      Step (.drain (.write cnt)) (.write cut) d (.drain (.pop cnt))
        { d with history := { d.history with torn := d.history.torn || (LogLabel.write cut).tears } }
  | pop {cnt d front rest} (hbuffer : d.buffer = front :: rest) :
      Step (.drain (.pop cnt)) .tau d (.drain (.test cnt))
        { d with
          buffer := rest
          history := { d.history with popped := d.history.popped ++ [front] } }
  | flush {d ok} : Step (.drain .flush) (.flush ok) d (.drain .unlock)
      { d with targetStream := d.targetStream.flush ok }

/-- **What `<<` can do.** -/
theorem TargetStream.write_cases {stream stream' : TargetStream} {text : String} {cut : Option Nat}
    (h : stream.write text cut = some stream') :
    (stream.failed = true ∧ stream' = stream) ∨ stream.failed = false ∧
      (cut = none ∧ stream' = ⟨stream.contents ++ text, false⟩ ∨
        ∃ n, cut = some n ∧ n < text.length ∧
          stream' = ⟨stream.contents ++ String.ofList (text.toList.take n), true⟩) := by
  unfold write at h
  split at h
  · rename_i hfailed
    exact .inl ⟨hfailed, (Option.some.inj h).symm⟩
  · rename_i hgood
    have hgood := Bool.eq_false_iff.mpr hgood
    cases cut with
    | none =>
        cases h
        exact .inr ⟨hgood, .inl ⟨rfl, by rw [hgood]⟩⟩
    | some n =>
        obtain ⟨hn, h⟩ := Option.ite_none_right_eq_some.mp h
        exact .inr ⟨hgood, .inr ⟨n, rfl, hn, (Option.some.inj h).symm⟩⟩

/-- What a statement can do to the mutex and to what it protects. -/
inductive Guarded.Move (thread : Nat) (label : LogLabel) (pc : LoggerPc) (mu : Option Nat) (d : Guarded)
    (pc' : LoggerPc) (mu' : Option Nat) (d' : Guarded) : Prop
  | outside (hpc : pc.inside = false) (hpc' : pc'.inside = false) (hmu : mu' = mu) (hdata : d' = d)
      (hlabel : label.tears = false)
  | acquire (hfree : mu = none) (hpc' : pc'.inside = true) (hentry : pc'.isEntry = true)
      (hmu : mu' = some thread) (hdata : d' = d) (hlabel : label.tears = false)
  | release (hpc : pc.inside = true) (hexit : pc.isExit = true) (hpc' : pc'.inside = false)
      (hmu : mu' = none) (hdata : d' = d) (hlabel : label.tears = false)
  | inside (hpc : pc.inside = true) (hpc' : pc'.inside = true) (hmu : mu' = mu)
      (hstep : Guarded.Step pc label d pc' d')

namespace LoggerInner

variable {l l' : LoggerInner} {thread : Nat} {pc' : LoggerPc} {label : LogLabel} {h : LogHistory}

theorem move_acquire {pc after : LoggerPc} (hpc : after.inside = true) (hentry : after.isEntry = true)
    (hlabel : label.tears = false) (hrecord : h.record l pc label = h)
    (hstep : l.acquire thread after = some (l', pc')) :
    Guarded.Move thread label pc l.mu (l.guarded h) pc' l'.mu (l'.guarded (h.record l pc label)) := by
  obtain ⟨hfree, heq⟩ := Option.ite_none_right_eq_some.mp hstep
  cases heq
  rw [hrecord]
  exact .acquire hfree hpc hentry rfl rfl hlabel

/-- **What a statement of `Log` can do.** -/
theorem advanceLog_cases {call : LogCall} {pc : LogPc} {ret : LogReturn}
    (hstep : l.advanceLog thread call pc ret = some (l', pc')) :
    Guarded.Move thread .tau (.log call pc ret) l.mu (l.guarded h) pc' l'.mu
      (l'.guarded (h.record l (.log call pc ret) .tau)) := by
  cases pc with
  | testLevel =>
      cases hstep
      refine .outside rfl ?_ rfl rfl rfl
      split
      · exact ret.inside_pc
      · cases l.isPrintCout <;> rfl
  | lockCout => exact move_acquire rfl rfl rfl rfl hstep
  | print =>
      cases hstep
      exact .inside rfl rfl rfl .print
  | unlockCout =>
      cases hstep
      exact .release rfl rfl rfl rfl rfl rfl
  | testAsync =>
      cases hstep
      refine .outside rfl ?_ rfl rfl rfl
      split
      · rfl
      · exact ret.inside_pc
  | lock => exact move_acquire rfl rfl rfl rfl hstep
  | format =>
      cases hstep
      exact .inside rfl rfl rfl .format
  | push =>
      cases hstep
      exact .inside rfl rfl rfl .push
  | clear =>
      cases hstep
      exact .inside rfl rfl rfl .clear
  | unlock =>
      cases hstep
      exact .release rfl rfl ret.inside_pc rfl rfl rfl

/-- The write of the record in front of the queue, which the stream takes, takes in part or ignores. -/
theorem move_write {cnt : Nat} {cut : Option Nat}
    (hstep : l.advanceDrain thread (.write cnt) (.write cut) = some (l', pc')) :
    Guarded.Move thread (.write cut) (.drain (.write cnt)) l.mu (l.guarded h) pc' l'.mu
      (l'.guarded (h.record l (.drain (.write cnt)) (.write cut))) := by
  obtain ⟨front, hfront, hstep⟩ := Option.bind_eq_some_iff.mp hstep
  obtain ⟨rest, hbuffer⟩ := List.head?_eq_some_iff.mp hfront
  obtain ⟨stream, hwrite, hstep⟩ := Option.bind_eq_some_iff.mp hstep
  cases hstep
  rcases TargetStream.write_cases hwrite with ⟨hfailed, rfl⟩ | ⟨hgood, ⟨rfl, rfl⟩ | ⟨n, rfl, hn, rfl⟩⟩
  · have hrecord : h.record l (.drain (.write cnt)) (.write cut)
        = { h with torn := h.torn || (LogLabel.write cut).tears } := by
      cases cut with
      | none => simp [LogHistory.record, hfailed, LogLabel.tears]
      | some n => simp [LogHistory.record, LogLabel.tears]
    rw [hrecord]
    exact .inside rfl rfl rfl (.ignored hbuffer hfailed)
  · have htake : l.buffer.take 1 = [front] := by rw [hbuffer]; rfl
    rw [LogHistory.record, if_neg (by simp [hgood]), htake]
    exact .inside rfl rfl rfl (.written hbuffer hgood)
  · exact .inside rfl rfl rfl (.torn hbuffer hgood hn)

/-- **What a statement of the drain can do.** -/
theorem advanceDrain_cases {pc : DrainPc} (hstep : l.advanceDrain thread pc label = some (l', pc')) :
    Guarded.Move thread label (.drain pc) l.mu (l.guarded h) pc' l'.mu
      (l'.guarded (h.record l (.drain pc) label)) := by
  cases pc with
  | lock =>
      cases label with
      | tau => exact move_acquire rfl rfl rfl rfl hstep
      | log | fatal | openFile | write | flush => cases hstep
  | test cnt =>
      cases label with
      | tau =>
          cases hstep
          split
          · rename_i hmore
            split
            · rename_i hfailed
              exact .inside rfl rfl rfl (.skip hmore.1 hfailed)
            · rename_i hgood
              exact .inside rfl rfl rfl (.write hmore.1 hmore.2 (Bool.eq_false_iff.mpr hgood))
          · exact .inside rfl rfl rfl .done
      | log | fatal | openFile | write | flush => cases hstep
  | write cnt =>
      cases label with
      | write cut => exact move_write hstep
      | log | fatal | tau | openFile | flush => cases hstep
  | pop cnt =>
      cases label with
      | tau =>
          obtain ⟨hne, hstep⟩ := Option.ite_none_left_eq_some.mp hstep
          obtain ⟨front, rest, hbuffer⟩ := List.exists_cons_of_ne_nil hne
          cases hstep
          refine .inside rfl rfl rfl ?_
          rw [LogHistory.record, hbuffer]
          exact .pop hbuffer
      | log | fatal | openFile | write | flush => cases hstep
  | flush =>
      cases label with
      | flush ok =>
          cases hstep
          exact .inside rfl rfl rfl .flush
      | log | fatal | tau | openFile | write => cases hstep
  | unlock =>
      cases label with
      | tau =>
          cases hstep
          exact .release rfl rfl rfl rfl rfl rfl
      | log | fatal | openFile | write | flush => cases hstep
  | sleep =>
      cases label with
      | tau =>
          cases hstep
          exact .outside rfl rfl rfl rfl rfl
      | log | fatal | openFile | write | flush => cases hstep

/-- **What a statement can do**, where the stream is new before the file is opened. -/
theorem advance_cases {pc : LoggerPc} (hopening : pc = .asyncThreadFunc → l.targetStream = .empty)
    (hstep : l.advance thread pc label = some (l', pc')) :
    Guarded.Move thread label pc l.mu (l.guarded h) pc' l'.mu (l'.guarded (h.record l pc label)) := by
  cases pc with
  | idle =>
      cases label with
      | log | fatal =>
          cases hstep
          exact .outside rfl rfl rfl rfl rfl
      | tau | openFile | write | flush => cases hstep
  | log call pc ret =>
      cases label with
      | tau => exact advanceLog_cases hstep
      | log | fatal | openFile | write | flush => cases hstep
  | terminate => cases hstep
  | asyncThreadFunc =>
      cases label with
      | openFile err =>
          cases err with
          | none =>
              cases hstep
              refine .outside rfl rfl rfl ?_ rfl
              rw [guarded, guarded, hopening rfl]
              rfl
          | some err =>
              cases hstep
              exact .outside rfl rfl rfl rfl rfl
      | log | fatal | tau | write | flush => cases hstep
  | drain pc => exact advanceDrain_cases hstep
  | setFailed =>
      cases label with
      | tau =>
          cases hstep
          exact .outside rfl rfl rfl rfl rfl
      | log | fatal | openFile | write | flush => cases hstep

end LoggerInner

/-- What the file contains after the records were written to it. -/
def drained (records : List String) : String := String.join (records.map (· ++ "\n"))

@[simp]
theorem drained_nil : drained [] = "" := rfl

@[simp]
theorem drained_cons (r : String) (records : List String) :
    drained (r :: records) = r ++ "\n" ++ drained records := by
  simp [drained]

@[simp]
theorem drained_append (records records' : List String) :
    drained (records ++ records') = drained records ++ drained records' := by
  simp [drained]

/-- The records of the queue that the drain is not through with. -/
def LoggerPc.pending (pc : LoggerPc) (buffer : List String) : List String :=
  if pc.isPop then buffer.tail else buffer

/-- The record that is written and still in the queue. -/
def LoggerPc.inHand (pc : LoggerPc) (buffer : List String) : List String :=
  if pc.isPop then buffer.take 1 else []

/-- What `oss` contains while a thread with the mutex is at `pc`. -/
def LoggerPc.OssIs (pc : LoggerPc) (oss : String) : Prop :=
  match pc with
  | .log call .push _ => oss = call.record
  | .log _ .clear _ => True
  | _ => oss = ""

/-- The drain has seen that the stream is good. -/
def LoggerPc.isWrite : LoggerPc → Bool
  | .drain (.write _) => true
  | _ => false

/-- What holds of the data under the mutex while its owner is at `pc`. -/
structure Guarded.Held (pc : LoggerPc) (d : Guarded) : Prop where
  oss : pc.OssIs d.oss
  good : pc.isWrite = true → d.targetStream.failed = false
  queue : d.history.popped ++ d.buffer = d.history.pushed
  intact : d.history.torn = false →
    d.history.written = d.history.popped ++ pc.inHand d.buffer ∧
      d.targetStream.contents = drained d.history.written
  torn : d.history.torn = true → d.targetStream.failed = true ∧
    d.history.written.length + (pc.pending d.buffer).length < d.history.pushed.length

namespace Guarded

variable {pc pc' : LoggerPc} {label : LogLabel} {d d' : Guarded}

/-- Of the program point only the content of `oss` matters, and whether a record is in hand. -/
theorem Held.move (hd : Held pc d) (hoss : pc'.OssIs d.oss) (hpop : pc'.isPop = pc.isPop)
    (hwrite : pc'.isWrite = true → d.targetStream.failed = false) : Held pc' d where
  oss := hoss
  good := hwrite
  queue := hd.queue
  intact := by
    rw [LoggerPc.inHand, hpop]
    exact hd.intact
  torn := by
    rw [LoggerPc.pending, hpop]
    exact hd.torn

theorem Held.entry (hd : Held .idle d) (hpc : pc.isEntry = true) : Held pc d := by
  unfold LoggerPc.isEntry at hpc
  split at hpc
  · exact hd.move hd.oss rfl nofun
  · exact hd.move hd.oss rfl nofun
  · exact hd.move hd.oss rfl nofun
  · cases hpc

theorem Held.exit (hd : Held pc d) (hpc : pc.isExit = true) : Held .idle d := by
  unfold LoggerPc.isExit at hpc
  split at hpc
  · exact hd.move hd.oss rfl nofun
  · exact hd.move hd.oss rfl nofun
  · exact hd.move hd.oss rfl nofun
  · cases hpc

/-- A stream that is good has not torn a record. -/
theorem Held.torn_eq_false (hd : Held pc d) (hgood : d.targetStream.failed = false) :
    d.history.torn = false := by
  cases htorn : d.history.torn with
  | false => rfl
  | true => exact absurd (hd.torn htorn).1 (by simp [hgood])

/-- In front of a write the file contains the records that were popped. -/
theorem Held.before_write {cnt : Nat} (hd : Held (.drain (.write cnt)) d) :
    d.history.written = d.history.popped ∧ d.targetStream.contents = drained d.history.popped := by
  obtain ⟨hwritten, hcontents⟩ := hd.intact (hd.torn_eq_false (hd.good rfl))
  have heq : d.history.written = d.history.popped := hwritten.trans (List.append_nil _)
  exact ⟨heq, hcontents.trans (congrArg drained heq)⟩

/-- A record that was written is in hand. -/
theorem Held.written {cnt : Nat} {front : String} {rest : List String} (hd : Held (.drain (.write cnt)) d)
    (hbuffer : d.buffer = front :: rest) (hgood : d.targetStream.failed = false) :
    Held (.drain (.pop cnt))
      { d with
        targetStream := ⟨d.targetStream.contents ++ (front ++ "\n"), false⟩
        history := { d.history with written := d.history.written ++ [front] } } := by
  have htorn := hd.torn_eq_false hgood
  obtain ⟨hwritten, hcontents⟩ := hd.before_write
  refine ⟨hd.oss, nofun, hd.queue, fun _ => ⟨?_, ?_⟩, fun h => absurd h (by simp [htorn])⟩
  · change d.history.written ++ [front] = d.history.popped ++ d.buffer.take 1
    rw [hwritten, hbuffer]
    rfl
  · change d.targetStream.contents ++ (front ++ "\n") = drained (d.history.written ++ [front])
    rw [drained_append, hwritten, hcontents, drained_cons, drained_nil, String.append_empty]

/-- The record in hand leaves the queue, written or not. -/
theorem Held.pop {cnt : Nat} {front : String} {rest : List String} (hd : Held (.drain (.pop cnt)) d)
    (hbuffer : d.buffer = front :: rest) :
    Held (.drain (.test cnt))
      { d with
        buffer := rest
        history := { d.history with popped := d.history.popped ++ [front] } } := by
  have hqueue : d.history.popped ++ [front] ++ rest = d.history.pushed := by
    rw [← hd.queue, hbuffer, List.append_assoc, List.singleton_append]
  have hintact := hd.intact
  have htorn := hd.torn
  change d.history.torn = false → d.history.written = d.history.popped ++ d.buffer.take 1 ∧ _ at hintact
  change d.history.torn = true → d.targetStream.failed = true ∧
    d.history.written.length + d.buffer.tail.length < d.history.pushed.length at htorn
  rw [hbuffer] at hintact htorn
  refine ⟨hd.oss, nofun, hqueue, fun h => ⟨?_, (hintact h).2⟩, htorn⟩
  change d.history.written = d.history.popped ++ [front] ++ []
  rw [List.append_nil]
  exact (hintact h).1

/-- **A statement inside a critical section keeps the property of its program point.** -/
theorem Held.step (hd : Held pc d) (h : Step pc label d pc' d') : Held pc' d' := by
  cases h with
  | print => exact hd.move hd.oss rfl nofun
  | @format call ret =>
      have hoss : d.oss = "" := hd.oss
      refine ⟨?_, nofun, hd.queue, hd.intact, hd.torn⟩
      change d.oss ++ call.record = call.record
      rw [hoss, String.empty_append]
  | push =>
      refine ⟨trivial, nofun, ?_, hd.intact, fun htorn => ?_⟩
      · change d.history.popped ++ (d.buffer ++ [d.oss]) = d.history.pushed ++ [d.oss]
        rw [← List.append_assoc, hd.queue]
      · obtain ⟨hfailed, hlt⟩ := hd.torn htorn
        refine ⟨hfailed, ?_⟩
        change d.history.written.length + (d.buffer ++ [d.oss]).length
          < (d.history.pushed ++ [d.oss]).length
        change d.history.written.length + d.buffer.length < d.history.pushed.length at hlt
        rw [List.length_append, List.length_append]
        omega
  | clear => exact ⟨rfl, nofun, hd.queue, hd.intact, hd.torn⟩
  | write hcnt hbuffer hgood => exact hd.move hd.oss rfl fun _ => hgood
  | skip hcnt hfailed => exact hd.move hd.oss rfl nofun
  | done => exact hd.move hd.oss rfl nofun
  | written hbuffer hgood => exact hd.written hbuffer hgood
  | @torn cnt _ front rest n hbuffer hgood hn =>
      obtain ⟨hwritten, -⟩ := hd.before_write
      refine ⟨hd.oss, nofun, hd.queue, nofun, fun _ => ⟨rfl, ?_⟩⟩
      -- The record is not written, and it is no longer pending.
      change d.history.written.length + d.buffer.tail.length < d.history.pushed.length
      rw [← hd.queue, hwritten, hbuffer, List.tail_cons, List.length_append, List.length_cons]
      omega
  | @ignored cnt _ front rest cut hbuffer hfailed =>
      exact absurd hfailed (by simp [hd.good rfl])
  | pop hbuffer => exact hd.pop hbuffer
  | @flush _ ok =>
      refine ⟨hd.oss, nofun, hd.queue, hd.intact, fun htorn => ?_⟩
      obtain ⟨hfailed, hlt⟩ := hd.torn htorn
      refine ⟨?_, hlt⟩
      change (d.targetStream.failed || !ok) = true
      rw [hfailed, Bool.true_or]

variable {thread : Nat} {mu mu' : Option Nat} {pcs : Nat → LoggerPc}

theorem Move.excludes (hexcl : Mutex.Excludes LoggerPc.inside mu pcs)
    (h : Move thread label (pcs thread) mu d pc' mu' d') :
    Mutex.Excludes LoggerPc.inside mu' (Function.update pcs thread pc') := by
  cases h with
  | outside hpc hpc' hmu => exact hmu ▸ hexcl.keep (hpc'.trans hpc.symm)
  | acquire hfree hpc' _ hmu =>
      subst hfree hmu
      exact hexcl.acquire hpc'
  | release hpc _ hpc' hmu => exact hmu ▸ hexcl.release hpc hpc'
  | inside hpc hpc' hmu => exact hmu ▸ hexcl.keep (hpc'.trans hpc.symm)

/-- **What the mutex protects stays as its owner's program point says.** -/
theorem Move.guards (hexcl : Mutex.Excludes LoggerPc.inside mu pcs)
    (hguards : Mutex.Guards (Held .idle) Held mu pcs d)
    (h : Move thread label (pcs thread) mu d pc' mu' d') :
    Mutex.Guards (Held .idle) Held mu' (Function.update pcs thread pc') d' := by
  cases h with
  | outside hpc _ hmu hdata =>
      subst hmu hdata
      exact hguards.outside_step hexcl hpc
  | acquire hfree _ hentry hmu hdata =>
      subst hfree hmu hdata
      exact hguards.acquire fun hd => hd.entry hentry
  | release hpc hexit _ hmu hdata =>
      subst hmu hdata
      exact hguards.release hexcl hpc fun hd => hd.exit hexit
  | inside hpc _ hmu hstep =>
      subst hmu
      exact hguards.inside_step hexcl hpc fun hd => hd.step hstep

theorem Step.torn_eq (h : Step pc label d pc' d') :
    d'.history.torn = (d.history.torn || label.tears) := by
  cases h with
  | ignored => rfl
  | torn => exact (Bool.or_true _).symm
  | _ => exact (Bool.or_false _).symm

theorem Move.torn_eq {pc : LoggerPc} (h : Move thread label pc mu d pc' mu' d') :
    d'.history.torn = (d.history.torn || label.tears) := by
  cases h with
  | outside _ _ _ hdata hlabel | acquire _ _ _ _ hdata hlabel | release _ _ _ _ hdata hlabel =>
      rw [hdata, hlabel, Bool.or_false]
  | inside _ _ _ hstep => exact hstep.torn_eq

end Guarded

end EpollServer
