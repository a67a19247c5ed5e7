import EpollServer.Proof.Reading

/-!
# What the message callback sees

The reader invariant over whole runs of a session. `Session.Reading` accounts for every byte consumed:
whole frames, whose bodies the callback has seen, and the bytes of the unfinished one. `Session.Delivering`
says where the work is that is still owed, so that nothing is owed once the stack is empty. Sending and
closing, from wherever they are called, leave the reader alone.
-/

namespace EpollServer

open Framing

/-- What a kernel reports: a `read` that asks for no bytes does not block and does not fail, though a
signal may interrupt it. -/
def Label.legal : Label → Prop
  | .read 0 (.error errno) => errno = .eintr
  | _ => True

instance (label : Label) : Decidable label.legal := by
  unfold Label.legal
  split <;> infer_instance

/-- Whether a step shows in what was read and delivered. -/
def Label.isReader : Label → Bool
  | .read _ _ | .onMessage _ => true
  | _ => false

/-- The bytes that a step reads. -/
def Label.bytesRead : Label → List UInt8
  | .read _ r => r.bytes
  | _ => []

theorem History.record_eq (h : History) (c : Connection) (op : Op) {label : Label}
    (hlabel : label.isReader = false) : (h.record c op label).consumed = h.consumed ∧
      (h.record c op label).atEof = h.atEof ∧ (h.record c op label).seen = h.seen := by
  cases label with
  | read | onMessage => cases hlabel
  | _ => exact ⟨rfl, rfl, rfl⟩

namespace Op

variable {c c' : Connection} {op : Op} {label : Label} {ops : List Op}

theorem Exec.reader_eq (h : Exec c op label c' ops) (hlabel : label.isReader = false)
    (hdone : op ≠ .messageDone) : c'.reader = c.reader := by
  cases h with
  | read => cases hlabel
  | messageDone => exact absurd rfl hdone
  | _ => rfl

theorem Exec.callback_eq (h : Exec c op label c' ops) :
    c'.onMessageCallback = c.onMessageCallback := by
  cases h with
  | @read r =>
      obtain ⟨_, _, _, _, _, hframe⟩ := c.readNonBlocking_frame r
      rw [hframe]
  | _ => rfl

theorem Exec.state_eq (h : Exec c op label c' ops) : c'.state = c.state ∨ c'.state = .disconected := by
  cases h with
  | @read r =>
      obtain ⟨_, _, _, _, _, hframe⟩ := c.readNonBlocking_frame r
      exact .inl (by rw [hframe])
  | close => exact .inr rfl
  | _ => exact .inl rfl

theorem Exec.connected (h : Exec c op label c' ops) (hstate : c'.state = .connected) :
    c.state = .connected := by
  rcases h.state_eq with heq | heq
  · exact heq.symm.trans hstate
  · exact absurd (heq.symm.trans hstate) (by decide)

theorem Exec.messageDone_notMem (h : Exec c op label c' ops)
    (hlabel : ∀ calls, label ≠ .onMessage calls) : Op.messageDone ∉ ops := by
  cases h with
  | @read r =>
      rcases c.readNonBlocking_ops r with heq | heq | heq <;> rw [heq] <;> simp
  | message => exact absurd rfl (hlabel _)
  | close => split <;> simp
  | sendWithTwoSysCall => simp [Connection.sendWithTwoSysCall]
  | _ => simp

/-- A step outside the reader: it starts the read loop only together with the test behind it, and it
takes a pending close from the stack only by closing. -/
theorem Exec.quiet (h : Exec c op label c' ops) (hlabel : label.isReader = false)
    (hdone : op ≠ .messageDone) : op ≠ .readNonBlocking ∧
      (Op.readNonBlocking ∈ ops → Op.messageReady ∈ ops) ∧
      (c'.state = c.state ∧ op ≠ .handleClose ∨ c'.state = .disconected) := by
  cases h with
  | read | message => cases hlabel
  | messageDone => exact absurd rfl hdone
  | writeFailed hop | writeAll hop | writePart hop | queueNone hop | queueAll hop =>
      refine ⟨?_, by simp, .inl ⟨rfl, ?_⟩⟩ <;> exact fun h => (h ▸ hop).elim
  | closed hstate => exact ⟨by decide, by simp, .inr hstate⟩
  | close => exact ⟨by decide, by split <;> simp, .inr rfl⟩
  | sendWithTwoSysCall => exact ⟨by simp, by simp [Connection.sendWithTwoSysCall], .inl ⟨rfl, by simp⟩⟩
  | _ => exact ⟨by simp, by simp, .inl ⟨rfl, by simp⟩⟩

end Op

namespace Session

variable {s s' : Session} {label : Label}

theorem step_connected (h : s.step label = some s') (hstate : s'.conn.state = .connected) :
    s.conn.state = .connected := by
  rcases step_cases h with ⟨-, events, -, rfl⟩ | ⟨-, f, -, rfl⟩ | ⟨op, rest, conn, ops, -, hexec, rfl⟩
  · exact hstate
  · exact hstate
  · exact (Op.exec_cases hexec).connected hstate

theorem step_disconected (h : s.step label = some s') (hstate : s.conn.state = .disconected) :
    s'.conn.state = .disconected := by
  rcases step_cases h with ⟨-, events, -, rfl⟩ | ⟨-, f, -, rfl⟩ | ⟨op, rest, conn, ops, -, hexec, rfl⟩
  · exact hstate
  · exact hstate
  · rcases (Op.exec_cases hexec).state_eq with heq | heq
    · exact heq.trans hstate
    · exact heq

theorem step_consumed (h : s.step label = some s') :
    s'.history.consumed = s.history.consumed ++ label.bytesRead := by
  rcases step_cases h with ⟨-, events, rfl, rfl⟩ | ⟨-, f, rfl, rfl⟩ | ⟨op, rest, conn, ops, -, -, rfl⟩
  · exact (List.append_nil _).symm
  · exact (List.append_nil _).symm
  · cases label with
    | read => rfl
    | _ => exact (List.append_nil _).symm

/-- The message whose callback is running, or whose reset is still to come. -/
def current (s : Session) : List (List UInt8) :=
  if Op.messageDone ∈ s.stack then [s.conn.readBuffer] else []

/-- Every byte consumed belongs to a frame whose body the callback has seen, or to the frame that the
reader stands in. -/
def Reading (s : Session) : Prop :=
  ∃ (fs : List (Frame tlv)) (r : List UInt8),
    s.history.consumed = encode fs ++ r ∧ s.conn.reader.At r ∧
      (Op.messageDone ∈ s.stack → s.conn.readyToHandleMessage = true) ∧
      s.history.seen = fs.map Frame.body ++ s.current

/-- A connection that nothing happened on yet, in whatever state the constructor left it. -/
structure Built (s : Session) : Prop where
  stack : s.stack = []
  history : s.history = .new
  reader : s.conn.reader.Initial
  size_le : s.conn.readBuffer.length ≤ maxTlvLength

/-- A connection that is set up and that nothing happened on yet. -/
structure Fresh (s : Session) : Prop where
  stack : s.stack = []
  history : s.history = .new
  state : s.conn.state = .connected
  callback : s.conn.onMessageCallback = true
  reader : s.conn.reader.Initial
  size_le : s.conn.readBuffer.length ≤ maxTlvLength
  sendBuffer : s.conn.sendBuffer = .new

theorem Fresh.built {s : Session} (hs : s.Fresh) : s.Built :=
  ⟨hs.stack, hs.history, hs.reader, hs.size_le⟩

/-- The server sets connections up so, whatever `state` and `tied` were before. -/
theorem fresh_connectionEstablished (loop : Nat) (connfd : Fd) (state : ConnectionState)
    (tied ok ok' : Bool) : Fresh (new (((Connection.new loop connfd state tied
      ok).setCloseCallback.setMessageCallback).connectionEstablished ok')) where
  stack := rfl
  history := rfl
  state := rfl
  callback := rfl
  reader := ⟨rfl, rfl, rfl⟩
  size_le := Nat.zero_le _
  sendBuffer := rfl

theorem Built.stacked (hs : s.Built) : s.Stacked := by
  rw [Stacked, hs.stack]
  exact .nil

theorem Built.reading (hs : s.Built) : s.Reading := by
  refine ⟨[], [], ?_, hs.reader.at_nil hs.size_le, ?_, ?_⟩
  · rw [hs.history]
    rfl
  · rw [hs.stack]
    exact fun h => absurd h List.not_mem_nil
  · rw [current, hs.stack, hs.history]
    rfl

theorem Fresh.reading (hs : s.Fresh) : s.Reading := hs.built.reading

theorem length_le_of_mem_bodies {stream msg : List UInt8} (hmsg : msg ∈ bodies tlv stream) :
    msg.length ≤ maxTlvLength := by
  obtain ⟨f, -, rfl⟩ := List.mem_map.mp hmsg
  exact f.length_body.trans_le f.length_body_le

theorem Reading.seen_of_consumed (hs : s.Reading) : s.history.seen <+: bodies tlv s.history.consumed := by
  obtain ⟨fs, r, hconsumed, hat, hready, hseen⟩ := hs
  rw [hseen, hconsumed, bodies_encode_append]
  refine List.prefix_append_right_inj _ |>.mpr ?_
  by_cases hdone : Op.messageDone ∈ s.stack
  · obtain ⟨f, hbody, rfl⟩ := hat.symbols_of_full (hat.full_of_ready (hready hdone))
    have hbodies := bodies_encode_append [f] []
    rw [encode_cons, encode_nil, List.append_nil, List.append_nil] at hbodies
    rw [current, if_pos hdone, hbodies, List.map_singleton, hbody]
    exact List.prefix_append _ _
  · rw [current, if_neg hdone]
    exact List.nil_prefix

/-- `Reading` depends on the reader, on what was read and delivered, and on whether a reset is to come. -/
theorem Reading.congr (hs : s.Reading) (hreader : s'.conn.reader = s.conn.reader)
    (hconsumed : s'.history.consumed = s.history.consumed) (hseen : s'.history.seen = s.history.seen)
    (hdone : Op.messageDone ∈ s'.stack ↔ Op.messageDone ∈ s.stack) : s'.Reading := by
  obtain ⟨fs, r, hc, hat, hready, hs⟩ := hs
  have hbuffer : s'.conn.readBuffer = s.conn.readBuffer := congrArg Reader.readBuffer hreader
  have hflag : s'.conn.readyToHandleMessage = s.conn.readyToHandleMessage :=
    congrArg Reader.readyToHandleMessage hreader
  refine ⟨fs, r, hconsumed.trans hc, hreader ▸ hat, fun h => hflag.trans (hready (hdone.mp h)), ?_⟩
  rw [hseen, hs, current, current, hbuffer]
  simp only [hdone]

theorem Reading.read {rest : List Op} {r : ReadResult} (hs : s.Reading)
    (hstack : s.stack = .readNonBlocking :: rest) (hrest : Op.messageDone ∉ rest)
    (hcount : r.bytes.length ≤ s.conn.readCount) :
    Reading { s with
      conn := (s.conn.readNonBlocking r).1
      stack := (s.conn.readNonBlocking r).2 ++ rest
      history := s.history.record s.conn .readNonBlocking (.read s.conn.readCount r) } := by
  have hops : Op.messageDone ∉ (s.conn.readNonBlocking r).2 ++ rest := by
    rw [List.mem_append, not_or]
    exact ⟨(Op.Exec.read hcount).messageDone_notMem (by rintro calls ⟨⟩), hrest⟩
  obtain ⟨fs, t, hconsumed, hat, -, hseen⟩ := hs
  refine ⟨fs, t ++ r.bytes, ?_, s.conn.at_readNonBlocking hat hcount, fun h => absurd h hops, ?_⟩
  · change s.history.consumed ++ r.bytes = _
    rw [hconsumed, List.append_assoc]
  · change s.history.seen = _
    rw [hseen, current, current, hstack, if_neg (by simpa using hrest), if_neg hops]

theorem Reading.message {rest : List Op} {calls : List Call} (hs : s.Reading)
    (hstack : s.stack = .messageReady :: rest) (hrest : Op.messageDone ∉ rest)
    (hmessage : s.conn.hasMessage = true) :
    Reading { s with
      stack := (calls.map .call ++ [.messageDone]) ++ rest
      history := s.history.record s.conn .messageReady (.onMessage calls) } := by
  obtain ⟨fs, t, hconsumed, hat, -, hseen⟩ := hs
  refine ⟨fs, t, hconsumed, hat, fun _ => (Bool.and_eq_true_iff.mp hmessage).2, ?_⟩
  change s.history.seen ++ [s.conn.readBuffer] = _
  rw [hseen, current, current, hstack, if_neg (by simpa using hrest), if_pos (by simp),
    List.append_nil]

/-- The reset turns the unfinished frame, which is whole by now, into one that is dealt with. -/
theorem Reading.messageDone {rest : List Op} (hs : s.Reading)
    (hstack : s.stack = .messageDone :: rest) (hrest : Op.messageDone ∉ rest) :
    Reading { s with
      conn := s.conn.messageDone
      stack := rest
      history := s.history.record s.conn .messageDone .tau } := by
  have hmem : Op.messageDone ∈ s.stack := hstack ▸ List.mem_cons_self
  obtain ⟨fs, t, hconsumed, hat, hready, hseen⟩ := hs
  obtain ⟨f, hbody, rfl⟩ := hat.symbols_of_full (hat.full_of_ready (hready hmem))
  have hinitial : s.conn.messageDone.reader.Initial := ⟨rfl, rfl, rfl⟩
  refine ⟨fs ++ [f], [], ?_, hinitial.at_nil hat.size_le, fun h => absurd h hrest, ?_⟩
  · change s.history.consumed = _
    rw [hconsumed, encode_append, encode_cons, encode_nil, List.append_nil, List.append_nil]
  · change s.history.seen = _
    rw [hseen, current, current, if_pos hmem, if_neg hrest, List.map_append, List.append_nil,
      List.map_cons, List.map_nil, hbody]
    rfl

theorem Reading.step (hs : s.Reading) (hstacked : s.Stacked) (h : s.step label = some s') :
    s'.Reading := by
  rcases step_cases h with ⟨hstack, events, -, rfl⟩ | ⟨hstack, f, -, rfl⟩ |
    ⟨op, rest, conn, ops, hstack, hexec, rfl⟩
  · refine hs.congr rfl rfl rfl ?_
    rw [hstack]
    exact iff_of_false (fun h => by simpa using mem_handleEvent h) List.not_mem_nil
  · refine hs.congr rfl rfl rfl ?_
    rw [hstack]
    simp
  · have hexec := Op.exec_cases hexec
    rw [Stacked, hstack, List.pairwise_cons] at hstacked
    -- nothing of the reader stands above a reset
    have hrest (hop : ¬op.isWriter) : Op.messageDone ∉ rest := fun h => hop (hstacked.1 _ h)
    by_cases hlabel : label.isReader = true
    · cases hexec with
      | read hcount => exact hs.read hstack (hrest (by decide)) hcount
      | message hmessage => exact hs.message hstack (hrest (by decide)) hmessage
      | _ => cases hlabel
    · have hlabel : label.isReader = false := Bool.eq_false_iff.mpr hlabel
      by_cases hdone : op = .messageDone
      · subst hdone
        obtain ⟨rfl, rfl, rfl⟩ := hexec.of_messageDone
        exact hs.messageDone hstack (hrest (by decide))
      · obtain ⟨hconsumed, -, hseen⟩ := History.record_eq s.history s.conn op hlabel
        refine hs.congr (hexec.reader_eq hlabel hdone) hconsumed hseen ?_
        have hops := hexec.messageDone_notMem (by rintro calls rfl; cases hlabel)
        rw [hstack]
        simp [hops, hdone, eq_comm]

/-- Where the work is that is still owed to the callback, or to the peer that ended the stream. -/
structure Delivering (s : Session) : Prop where
  callback : s.conn.onMessageCallback = true
  ready : s.conn.readyToHandleMessage = true → Op.messageReady ∈ s.stack ∨ Op.messageDone ∈ s.stack
  full : s.conn.reader.Full →
    s.conn.readyToHandleMessage = true ∨ Op.readNonBlocking ∈ s.stack
  loop : Op.readNonBlocking ∈ s.stack → Op.messageReady ∈ s.stack
  closing : s.history.atEof = true ∨ s.conn.overlong →
    s.conn.state = .disconected ∨ Op.handleClose ∈ s.stack

theorem Fresh.delivering (hs : s.Fresh) : s.Delivering := by
  have hheader : s.conn.readTlvHeaderLength = 0 := hs.reader.header
  have hready : s.conn.readyToHandleMessage = false := hs.reader.ready
  refine ⟨hs.callback, fun h => ?_, fun h => ?_, fun h => ?_, fun h => ?_⟩
  · exact absurd (hready.symm.trans h) Bool.false_ne_true
  · exact absurd (hheader.symm.trans h.1) (by decide)
  · rw [hs.stack] at h
    exact absurd h List.not_mem_nil
  · rcases h with h | h
    · rw [hs.history] at h
      exact absurd h Bool.false_ne_true
    · exact absurd (hheader.symm.trans h.1) (by decide)

theorem Delivering.of_quiet {op : Op} {rest ops : List Op} {conn : Connection} (hs : s.Delivering)
    (hstack : s.stack = op :: rest) (hexec : op.Exec s.conn label conn ops)
    (hlabel : label.isReader = false) (hready : op ≠ .messageReady) (hdone : op ≠ .messageDone) :
    Delivering { s with
      conn := conn, stack := ops ++ rest, history := s.history.record s.conn op label } := by
  obtain ⟨hread, hloop, hclose⟩ := hexec.quiet hlabel hdone
  obtain ⟨-, heof, -⟩ := History.record_eq s.history s.conn op hlabel
  have hreader := hexec.reader_eq hlabel hdone
  have hflag : conn.readyToHandleMessage = s.conn.readyToHandleMessage :=
    congrArg Reader.readyToHandleMessage hreader
  have hlen : conn.readTlvHeaderLength = s.conn.readTlvHeaderLength :=
    congrArg Reader.readTlvHeaderLength hreader
  have hheader : conn.tlvHeader = s.conn.tlvHeader := congrArg Reader.tlvHeader hreader
  have hkeep {a : Op} (hne : op ≠ a) (ha : a ∈ s.stack) : a ∈ ops ++ rest := by
    rw [hstack] at ha
    exact List.mem_append_right ops ((List.mem_cons.mp ha).resolve_left (Ne.symm hne))
  refine ⟨hexec.callback_eq.trans hs.callback, fun h => ?_, fun h => ?_, fun h => ?_, fun h => ?_⟩
  · exact (hs.ready (hflag.symm.trans h)).imp (hkeep hready) (hkeep hdone)
  · exact (hs.full (hreader ▸ h)).imp hflag.trans (hkeep hread)
  · rcases List.mem_append.mp h with h | h
    · exact List.mem_append_left rest (hloop h)
    · exact hkeep hready (hs.loop (hstack ▸ List.mem_cons_of_mem op h))
  · change (s.history.record s.conn op label).atEof = true ∨ conn.overlong at h
    rw [heof, Connection.overlong, hlen, hheader] at h
    rcases hclose with ⟨hstate, hne⟩ | hstate
    · exact (hs.closing h).imp hstate.trans (hkeep hne)
    · exact .inl hstate

theorem Delivering.read {rest : List Op} {r : ReadResult} (hs : s.Delivering) (hreading : s.Reading)
    (hstack : s.stack = .readNonBlocking :: rest)
    (hlegal : Label.legal (.read s.conn.readCount r)) :
    Delivering { s with
      conn := (s.conn.readNonBlocking r).1
      stack := (s.conn.readNonBlocking r).2 ++ rest
      history := s.history.record s.conn .readNonBlocking (.read s.conn.readCount r) } := by
  obtain ⟨fs, t, -, hat, -, -⟩ := hreading
  have hready : Op.messageReady ∈ rest := by
    have hmem := hs.loop (hstack ▸ List.mem_cons_self)
    rw [hstack] at hmem
    exact (List.mem_cons.mp hmem).resolve_left (by decide)
  have hlegal (errno : Errno) (hr : r = .error errno) (hzero : s.conn.readCount = 0) :
      errno = .eintr := by
    rwa [hr, hzero] at hlegal
  obtain ⟨readBuffer, headerLength, bodyLength, header, flag, hframe⟩ :=
    s.conn.readNonBlocking_frame r
  have hstate : (s.conn.readNonBlocking r).1.state = s.conn.state := by rw [hframe]
  have hcallback : (s.conn.readNonBlocking r).1.onMessageCallback = s.conn.onMessageCallback := by
    rw [hframe]
  refine ⟨hcallback.trans hs.callback, fun _ => .inl (List.mem_append_right _ hready),
    fun h => ?_, fun _ => List.mem_append_right _ hready, fun h => ?_⟩
  · exact (Connection.full_readNonBlocking hat hlegal h).imp_right (List.mem_append_left rest)
  · change (s.history.atEof || (decide (0 < s.conn.readCount) && r == .data [])) = true ∨
      (s.conn.readNonBlocking r).1.overlong at h
    by_cases hbefore : s.history.atEof = true ∨ s.conn.overlong
    · refine (hs.closing hbefore).imp hstate.trans fun hmem => ?_
      rw [hstack] at hmem
      exact List.mem_append_right _ ((List.mem_cons.mp hmem).resolve_left (by decide))
    · obtain ⟨heof, hlong⟩ := not_or.mp hbefore
      refine .inr (List.mem_append_left rest (Connection.close_readNonBlocking hat ?_))
      rcases h with h | h
      · simp only [Bool.or_eq_true, Bool.and_eq_true, decide_eq_true_eq, beq_iff_eq] at h
        exact .inl (h.resolve_left heof)
      · exact .inr ⟨hlong, h⟩

/-- The end of `HandleMessage` keeps `Delivering`: if no callback is called, then no message is there. -/
theorem Delivering.messageReady {rest ops : List Op} {conn : Connection} (hs : s.Delivering)
    (hstack : s.stack = .messageReady :: rest) (hrest : Op.readNonBlocking ∉ rest)
    (hexec : Op.messageReady.Exec s.conn label conn ops) :
    Delivering { s with
      conn := conn, stack := ops ++ rest, history := s.history.record s.conn .messageReady label } := by
  have hclose (ops : List Op) (h : s.conn.state = .disconected ∨ Op.handleClose ∈ s.stack) :
      s.conn.state = .disconected ∨ Op.handleClose ∈ ops ++ rest := by
    rw [hstack] at h
    exact h.imp_right fun hmem => List.mem_append_right _ ((List.mem_cons.mp hmem).resolve_left (by decide))
  have hloop : Op.readNonBlocking ∉ s.stack := by
    rw [hstack]
    simpa using hrest
  cases hexec with
  | noMessage hmessage =>
      have hready : s.conn.readyToHandleMessage = false := by
        simpa [Connection.hasMessage, hs.callback] using hmessage
      refine ⟨hs.callback, fun h => ?_, fun h => ?_, fun h => absurd h hrest,
        fun h => hclose _ (hs.closing h)⟩
      · exact absurd (hready.symm.trans h) Bool.false_ne_true
      · exact (hs.full h).imp_right fun hmem => absurd hmem hloop
  | @message calls hmessage =>
      refine ⟨hs.callback, fun _ => .inr (by simp), fun _ => .inl (Bool.and_eq_true_iff.mp hmessage).2,
        fun h => ?_, fun h => hclose _ (hs.closing h)⟩
      exact absurd h (by simpa using hrest)
  | writeFailed hop | writeAll hop | writePart hop | queueNone hop | queueAll hop => exact hop.elim

theorem Delivering.messageDone {rest : List Op} (hs : s.Delivering)
    (hstack : s.stack = .messageDone :: rest) (hrest : Op.readNonBlocking ∉ rest) :
    Delivering { s with
      conn := s.conn.messageDone
      stack := rest
      history := s.history.record s.conn .messageDone .tau } := by
  have hheader : s.conn.messageDone.readTlvHeaderLength ≠ tlvHeaderLength :=
    show 0 ≠ tlvHeaderLength by decide
  refine ⟨hs.callback, nofun, fun h => absurd h.1 hheader, fun h => absurd h hrest, fun h => ?_⟩
  have hbefore := hs.closing (h.imp id fun h => absurd h.1 hheader)
  rw [hstack] at hbefore
  exact hbefore.imp_right fun hmem => (List.mem_cons.mp hmem).resolve_left (by decide)

theorem Delivering.idle (hs : s.Delivering) (hstack : s.stack = []) :
    s.conn.readyToHandleMessage = false ∧ ¬s.conn.reader.Full ∧
      (s.history.atEof = true ∨ s.conn.overlong → s.conn.state = .disconected) := by
  have hnone (a : Op) : a ∉ s.stack := hstack ▸ List.not_mem_nil
  have hready : s.conn.readyToHandleMessage = false :=
    Bool.eq_false_iff.mpr fun h => (hs.ready h).elim (hnone _) (hnone _)
  refine ⟨hready, fun h => ?_, fun h => (hs.closing h).resolve_right (hnone _)⟩
  exact (hs.full h).elim (fun h => absurd (hready.symm.trans h) Bool.false_ne_true) (hnone _)

theorem Delivering.step (hs : s.Delivering) (hreading : s.Reading) (hstacked : s.Stacked)
    (hlegal : label.legal) (h : s.step label = some s') : s'.Delivering := by
  rcases step_cases h with ⟨hstack, events, -, rfl⟩ | ⟨hstack, f, -, rfl⟩ |
    ⟨op, rest, conn, ops, hstack, hexec, rfl⟩
  · obtain ⟨hready, hfull, hclosing⟩ := hs.idle hstack
    refine ⟨hs.callback, fun h => absurd (hready.symm.trans h) Bool.false_ne_true,
      fun h => absurd h hfull, fun h => ?_, fun h => .inl (hclosing h)⟩
    simpa using mem_handleEvent h
  · obtain ⟨hready, hfull, hclosing⟩ := hs.idle hstack
    refine ⟨hs.callback, fun h => absurd (hready.symm.trans h) Bool.false_ne_true,
      fun h => absurd h hfull, fun h => ?_, fun h => .inl (hclosing h)⟩
    simp at h
  · have hexec := Op.exec_cases hexec
    rw [Stacked, hstack, List.pairwise_cons] at hstacked
    have hrest (hop : ¬op.Above .readNonBlocking) : Op.readNonBlocking ∉ rest :=
      fun h => hop (hstacked.1 _ h)
    by_cases hready : op = .messageReady
    · subst hready
      exact hs.messageReady hstack (hrest id) hexec
    · by_cases hdone : op = .messageDone
      · subst hdone
        obtain ⟨rfl, rfl, rfl⟩ := hexec.of_messageDone
        exact hs.messageDone hstack (hrest id)
      · by_cases hlabel : label.isReader = true
        · cases hexec with
          | read hcount => exact hs.read hreading hstack hlegal
          | message hmessage => exact absurd rfl hready
          | _ => cases hlabel
        · exact hs.of_quiet hstack hexec (Bool.eq_false_iff.mpr hlabel) hready hdone

theorem stacked_of_built {ok : Session → Label → Prop}
    (hs : Machine.Reachable Session.step ok Built s) : s.Stacked :=
  hs.invariant (fun _ hs => hs.stacked) fun _ _ _ _ hinv _ h => hinv.step h

theorem reading_of_built {ok : Session → Label → Prop}
    (hs : Machine.Reachable Session.step ok Built s) : s.Reading :=
  hs.invariant (fun _ hs => hs.reading) fun _ _ _ hs hinv _ h => hinv.step (stacked_of_built hs) h

theorem stacked_of_reachable {ok : Session → Label → Prop}
    (hs : Machine.Reachable Session.step ok Fresh s) : s.Stacked :=
  stacked_of_built (hs.mono (fun _ hs => hs.built) fun _ _ h => h)

theorem reading_of_reachable {ok : Session → Label → Prop}
    (hs : Machine.Reachable Session.step ok Fresh s) : s.Reading :=
  reading_of_built (hs.mono (fun _ hs => hs.built) fun _ _ h => h)

theorem delivering_of_reachable
    (hs : Machine.Reachable Session.step (fun _ label => label.legal) Fresh s) : s.Delivering :=
  hs.invariant (fun _ hs => hs.delivering) fun _ _ _ hs hinv hlegal h =>
    hinv.step (reading_of_reachable hs) (stacked_of_reachable hs) hlegal h

/-- In an idle session the callback has seen the bodies of the whole frames consumed, and the reader
stands in what follows them. -/
theorem idle_of_reachable
    (hs : Machine.Reachable Session.step (fun _ label => label.legal) Fresh s)
    (hidle : s.stack = []) :
    s.conn.reader.At (split tlv s.history.consumed).2 ∧ ¬s.conn.reader.Full ∧
      s.history.seen = bodies tlv s.history.consumed := by
  obtain ⟨fs, r, hconsumed, hat, -, hseen⟩ := reading_of_reachable hs
  obtain ⟨-, hfull, -⟩ := (delivering_of_reachable hs).idle hidle
  have hsplit : split tlv s.history.consumed = (fs, r) :=
    split_eq hconsumed (hat.not_complete hfull)
  refine ⟨by rwa [hsplit], hfull, ?_⟩
  rw [hseen, current, hidle, if_neg List.not_mem_nil, List.append_nil, bodies, hsplit]

/-- **Parsing is exact and independent of segmentation.** Whatever the results of `read`, the events and
the calls from elsewhere were: when the handlers have returned and the first `k` bytes of the stream are
consumed, the callback has seen the bodies of the whole frames in them, one by one. A header that
announces too much and the end of the stream have closed the connection, and nothing was delivered for
the frame that they cut off. -/
theorem parse_exact (stream : List UInt8) (k : Nat)
    (hs : Machine.Reachable Session.step (fun _ label => label.legal) Fresh s)
    (hidle : s.stack = []) (hconsumed : s.history.consumed = stream.take k) :
    s.history.seen = bodies tlv (stream.take k) ∧
      (Oversized tlv (split tlv (stream.take k)).2 → s.conn.state = .disconected) ∧
      (s.history.atEof = true → s.conn.state = .disconected) := by
  obtain ⟨hat, hfull, hseen⟩ := idle_of_reachable hs hidle
  obtain ⟨-, -, hclosing⟩ := (delivering_of_reachable hs).idle hidle
  rw [← hconsumed]
  refine ⟨hseen, fun hover => hclosing (.inr ?_), fun heof => hclosing (.inl heof)⟩
  exact Connection.overlong_of_oversized hat hover

/-- An empty message and a message of one byte, cut inside the second header. -/
theorem parse_exact_cut : ∃ s : Session,
    Machine.Reachable Session.step (fun _ label => label.legal) Fresh s ∧ s.history.seen = [[], [7]] ∧
      s.history.seen = bodies tlv (List.take 17 [0, 0, 0, 0, 0, 0, 0, 0, 0, 0, 0, 0, 0, 0, 0, 1, 7]) := by
  have hfresh := fresh_connectionEstablished 0 5 .invalid false true true
  obtain ⟨s, hrun, hidle, hconsumed, hseen⟩ : ∃ s,
      Machine.run step (fun _ label => label.legal) (new (((Connection.new 0 5 .invalid false
          true).setCloseCallback.setMessageCallback).connectionEstablished true))
        [.event { EpollEvents.none with epollin := true }, .tau,
          .read 8 (.data [0, 0, 0, 0, 0, 0, 0, 0]), .read 0 (.error .eintr), .read 0 (.data []),
          .onMessage [], .tau,
          .event { EpollEvents.none with epollin := true }, .tau, .read 8 (.data [0, 0, 0]),
          .read 5 (.error .eagain), .tau,
          .event { EpollEvents.none with epollin := true }, .tau, .read 5 (.data [0, 0, 0, 0, 1]),
          .read 1 (.data [7]), .onMessage [], .tau] = some s ∧
      s.stack = [] ∧
      s.history.consumed = List.take 17 [0, 0, 0, 0, 0, 0, 0, 0, 0, 0, 0, 0, 0, 0, 0, 1, 7] ∧
      s.history.seen = [[], [7]] := ⟨_, rfl, rfl, rfl, rfl⟩
  have hs : Machine.Reachable step (fun _ label => label.legal) Fresh s := .run (.init hfresh) hrun
  exact ⟨s, hs, hseen, (parse_exact _ 17 hs hidle hconsumed).1⟩

end Session

end EpollServer
