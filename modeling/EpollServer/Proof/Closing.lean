import EpollServer.Proof.Delivery

/-!
# After the close

`HandleClose` acts once, but it stops nothing: until the channel is deleted, events still reach the handlers,
and `HandleMessage` does not look at the state. So a read loop that runs after the close may still complete a
frame, and then the message callback is called. As long as no `read` brings the last bytes of a frame after
the close, it is not.
-/

namespace EpollServer

namespace Connection

variable {c : Connection} {r : ReadResult}

/-- The `read` brings the bytes that the body under way still lacks. -/
def Completes (c : Connection) (r : ReadResult) : Prop :=
  match r with
  | .data bytes => tlvHeaderLength ≤ c.readTlvHeaderLength ∧
      c.readBodyLength + bytes.length = c.tlvHeader.length.toNat
  | .error _ => False

instance (c : Connection) (r : ReadResult) : Decidable (c.Completes r) := by
  unfold Completes
  split <;> infer_instance

/-- A frame is reported only by the `read` that completes it, and the loop ends there. -/
theorem completes_of_ready (h : (c.readNonBlocking r).1.readyToHandleMessage = true) :
    c.readyToHandleMessage = true ∨ c.Completes r ∧ (c.readNonBlocking r).2 = [] := by
  have hpass := c.pass r
  generalize c.readNonBlocking r = out at hpass h ⊢
  cases hpass with
  | bodyEmpty hge hfull | bodyDone hge _ hfull => exact .inr ⟨⟨hge, hfull⟩, rfl⟩
  | _ => exact .inl h

theorem ready_of_completes (h : c.Completes r) :
    (c.readNonBlocking r).1.readyToHandleMessage = true ∧ (c.readNonBlocking r).2 = [] := by
  have hpass := c.pass r
  generalize c.readNonBlocking r = out at hpass ⊢
  cases hpass with
  | interrupted | again | failed => exact h.elim
  | headerEnd hlt | header hlt | oversized hlt | headerDone hlt =>
      exact absurd h.1 (Nat.not_le.mpr hlt)
  | bodyEmpty | bodyDone => exact ⟨rfl, rfl⟩
  | bodyEnd _ hmore | body _ _ hmore => exact absurd h.2 hmore

end Connection

namespace Op

variable {c c' : Connection} {op : Op} {label : Label} {ops : List Op}

/-- Only `HandleClose` on an open connection leads to the close callback. -/
theorem Exec.onClose_count (h : Exec c op label c' ops) :
    (c'.state = c.state ∧ ops.count .onClose = 0 ∧ (label = .onClose → op = .onClose)) ∨
      (c.state ≠ .disconected ∧ c'.state = .disconected ∧ ops.count .onClose ≤ 1 ∧
        label ≠ .onClose) := by
  cases h with
  | close hstate => exact .inr ⟨hstate, rfl, by split <;> simp, by simp⟩
  | @read r =>
      obtain ⟨_, _, _, _, _, hframe⟩ := c.readNonBlocking_frame r
      refine .inl ⟨by rw [hframe], ?_, by simp⟩
      rcases c.readNonBlocking_ops r with heq | heq | heq <;> rw [heq] <;> rfl
  | message =>
      refine .inl ⟨rfl, ?_, by simp⟩
      simp [List.count_eq_zero]
  | onClose => exact .inl ⟨rfl, rfl, fun _ => rfl⟩
  | sendWithTwoSysCall => exact .inl ⟨rfl, by simp [Connection.sendWithTwoSysCall], by simp⟩
  | _ => exact .inl ⟨rfl, by simp, by simp⟩

end Op

namespace Session

variable {s s' : Session} {label : Label}

theorem step_closes (h : s.step label = some s') :
    s'.history.closes = s.history.closes + if label = .onClose then 1 else 0 := by
  rcases step_cases h with ⟨-, events, rfl, rfl⟩ | ⟨-, f, rfl, rfl⟩ | ⟨op, rest, conn, ops, -, -, rfl⟩
  · rfl
  · rfl
  · cases label <;> rfl

/-- The close callback is called at most once, and only after the state has changed. -/
def Closing (s : Session) : Prop :=
  s.history.closes + s.stack.count .onClose ≤ if s.conn.state = .disconected then 1 else 0

theorem Closing.step (hs : s.Closing) (h : s.step label = some s') : s'.Closing := by
  have hcloses := step_closes h
  unfold Closing at hs ⊢
  rcases step_cases h with ⟨hstack, events, rfl, rfl⟩ | ⟨hstack, f, rfl, rfl⟩ |
    ⟨op, rest, conn, ops, hstack, hexec, rfl⟩
  · rw [hstack] at hs
    have hcount : (s.handleEvent events).stack.count .onClose = 0 :=
      List.count_eq_zero.mpr fun h => by simpa using mem_handleEvent h
    rw [hcount]
    exact hs
  · rw [hstack] at hs
    simpa using hs
  · rw [hstack, List.count_cons] at hs
    dsimp only at hcloses ⊢
    rw [hcloses, List.count_append]
    rcases (Op.exec_cases hexec).onClose_count with ⟨hstate, hops, hlabel⟩ | ⟨hopen, hstate, hops, hlabel⟩
    · rw [hstate, hops]
      by_cases hclose : label = .onClose
      · rw [if_pos hclose]
        rw [hlabel hclose] at hs
        simp only [beq_self_eq_true, ↓reduceIte] at hs
        omega
      · rw [if_neg hclose]
        omega
    · rw [if_neg hopen] at hs
      rw [if_pos hstate, if_neg hlabel]
      omega

theorem Closing.disconected (hs : s.Closing) (hclosed : 0 < s.history.closes) :
    s.conn.state = .disconected := by
  by_contra hopen
  rw [Closing, if_neg hopen] at hs
  omega

/-- A closed connection is left in the middle of a frame. -/
def CutOff (s : Session) : Label → Prop
  | .read _ r => s.conn.state = .disconected → ¬s.conn.Completes r
  | _ => True

instance (s : Session) (label : Label) : Decidable (s.CutOff label) := by
  unfold CutOff
  split <;> infer_instance

/-- A complete frame is about to be delivered or being delivered, and the latter if the connection is
closed. -/
structure Silent (s : Session) : Prop where
  callback : s.conn.onMessageCallback = true
  loop : Op.readNonBlocking ∈ s.stack → Op.messageReady ∈ s.stack
  ready : s.conn.readyToHandleMessage = true →
    s.stack.head? = some .messageReady ∨ Op.messageDone ∈ s.stack
  closed : s.conn.state = .disconected → s.conn.readyToHandleMessage = true →
    Op.messageDone ∈ s.stack

theorem Fresh.silent (hs : s.Fresh) : s.Silent := by
  have hready : s.conn.readyToHandleMessage = false := hs.reader.ready
  refine ⟨hs.callback, fun h => ?_, fun h => absurd (hready.symm.trans h) Bool.false_ne_true,
    fun _ h => absurd (hready.symm.trans h) Bool.false_ne_true⟩
  rw [hs.stack] at h
  exact absurd h List.not_mem_nil

theorem Silent.idle (hs : s.Silent) (hstack : s.stack = []) :
    s.conn.readyToHandleMessage = false := by
  refine Bool.eq_false_iff.mpr fun h => ?_
  have hready := hs.ready h
  simp [hstack] at hready

/-- The read loop is directly above the end of its `HandleMessage`. -/
theorem Stacked.messageReady {rest : List Op} (hs : s.Stacked) (hstack : s.stack = .readNonBlocking :: rest)
    (hmem : Op.messageReady ∈ rest) : rest.head? = some .messageReady := by
  rw [Stacked, hstack, List.pairwise_cons] at hs
  cases rest with
  | nil => cases hmem
  | cons a rest =>
      rcases List.mem_cons.mp hmem with heq | hbelow
      · rw [← heq]
        rfl
      · have habove := (List.pairwise_cons.mp hs.2).1 _ hbelow
        have hread := hs.1 a List.mem_cons_self
        cases a <;> simp [Op.Above, Op.isWriter, Op.isFollowup] at habove hread

theorem Silent.read {rest : List Op} {r : ReadResult} (hs : s.Silent) (hstacked : s.Stacked)
    (hcut : s.CutOff (.read s.conn.readCount r)) (hstack : s.stack = .readNonBlocking :: rest) :
    Silent { s with
      conn := (s.conn.readNonBlocking r).1
      stack := (s.conn.readNonBlocking r).2 ++ rest
      history := s.history.record s.conn .readNonBlocking (.read s.conn.readCount r) } := by
  have hmem : Op.messageReady ∈ rest := by
    have hmem := hs.loop (hstack ▸ List.mem_cons_self)
    rw [hstack] at hmem
    exact (List.mem_cons.mp hmem).resolve_left (by decide)
  have hdone : Op.messageDone ∉ rest := by
    rw [Stacked, hstack, List.pairwise_cons] at hstacked
    exact fun h => absurd (hstacked.1 _ h) (by simp [Op.Above, Op.isWriter])
  have hready : s.conn.readyToHandleMessage = false := by
    refine Bool.eq_false_iff.mpr fun h => ?_
    have hready := hs.ready h
    simp [hstack, hdone] at hready
  obtain ⟨_, _, _, _, _, hframe⟩ := s.conn.readNonBlocking_frame r
  have hcompletes (h : (s.conn.readNonBlocking r).1.readyToHandleMessage = true) :
      s.conn.Completes r ∧ (s.conn.readNonBlocking r).2 = [] :=
    (Connection.completes_of_ready h).resolve_left fun h =>
      absurd (hready.symm.trans h) Bool.false_ne_true
  refine ⟨?_, fun _ => List.mem_append_right _ hmem, fun h => .inl ?_, fun hstate h => ?_⟩
  · rw [hframe]
    exact hs.callback
  · dsimp only
    rw [(hcompletes h).2]
    exact hstacked.messageReady hstack hmem
  · have hstate' : s.conn.state = .disconected := by rwa [hframe] at hstate
    exact absurd (hcompletes h).1 (hcut hstate')

section Quiet

variable {op : Op} {rest ops : List Op} {conn : Connection}

theorem Silent.noMessage (hs : s.Silent) (hexec : Op.messageReady.Exec s.conn label conn ops)
    (hlabel : label.isReader = false) (hbelow : Op.readNonBlocking ∉ rest) :
    Silent { s with
      conn := conn, stack := ops ++ rest, history := s.history.record s.conn .messageReady label } := by
  cases hexec with
  | noMessage hmessage =>
      have hready : s.conn.readyToHandleMessage = false := by
        simpa [Connection.hasMessage, hs.callback] using hmessage
      exact ⟨hs.callback, fun h => absurd h hbelow, fun h => absurd (hready.symm.trans h) Bool.false_ne_true,
        fun _ h => absurd (hready.symm.trans h) Bool.false_ne_true⟩
  | message => cases hlabel
  | writeFailed hop | writeAll hop | writePart hop | queueNone hop | queueAll hop => exact hop.elim

theorem Silent.of_quiet (hs : s.Silent) (hstack : s.stack = op :: rest)
    (hexec : op.Exec s.conn label conn ops) (hlabel : label.isReader = false)
    (hready : op ≠ .messageReady) (hdone : op ≠ .messageDone) :
    Silent { s with
      conn := conn, stack := ops ++ rest, history := s.history.record s.conn op label } := by
  obtain ⟨-, hloop, -⟩ := hexec.quiet hlabel hdone
  have hflag : conn.readyToHandleMessage = s.conn.readyToHandleMessage :=
    congrArg Reader.readyToHandleMessage (hexec.reader_eq hlabel hdone)
  have hkeep (h : conn.readyToHandleMessage = true) : Op.messageDone ∈ ops ++ rest := by
    rcases hs.ready (hflag.symm.trans h) with hhead | hmem
    · rw [hstack] at hhead
      exact absurd (Option.some.inj hhead) hready
    · rw [hstack] at hmem
      exact List.mem_append_right ops ((List.mem_cons.mp hmem).resolve_left (Ne.symm hdone))
  refine ⟨hexec.callback_eq.trans hs.callback, fun h => ?_, fun h => .inr (hkeep h), fun _ h => hkeep h⟩
  rcases List.mem_append.mp h with h | h
  · exact List.mem_append_left rest (hloop h)
  · have hmem := hs.loop (hstack ▸ List.mem_cons_of_mem op h)
    rw [hstack] at hmem
    exact List.mem_append_right ops ((List.mem_cons.mp hmem).resolve_left (Ne.symm hready))

end Quiet

theorem Silent.step (hs : s.Silent) (hstacked : s.Stacked) (hcut : s.CutOff label)
    (h : s.step label = some s') : s'.Silent := by
  rcases step_cases h with ⟨hstack, events, -, rfl⟩ | ⟨hstack, f, -, rfl⟩ |
    ⟨op, rest, conn, ops, hstack, hexec, rfl⟩
  · have hidle := hs.idle hstack
    refine ⟨hs.callback, fun h => ?_, fun h => absurd (hidle.symm.trans h) Bool.false_ne_true,
      fun _ h => absurd (hidle.symm.trans h) Bool.false_ne_true⟩
    simpa using mem_handleEvent h
  · have hidle := hs.idle hstack
    refine ⟨hs.callback, fun h => ?_, fun h => absurd (hidle.symm.trans h) Bool.false_ne_true,
      fun _ h => absurd (hidle.symm.trans h) Bool.false_ne_true⟩
    simp at h
  · have hexec := Op.exec_cases hexec
    have hbelow : Op.readNonBlocking ∉ rest := by
      rw [Stacked, hstack, List.pairwise_cons] at hstacked
      exact fun h => hstacked.1 _ h
    by_cases hlabel : label.isReader = true
    · cases hexec with
      | read => exact hs.read hstacked hcut hstack
      | message =>
          refine ⟨hs.callback, fun h => absurd h (by simpa using hbelow), fun _ => .inr (by simp),
            fun _ _ => by simp⟩
      | _ => cases hlabel
    · have hlabel : label.isReader = false := Bool.eq_false_iff.mpr hlabel
      by_cases hdone : op = .messageDone
      · subst hdone
        obtain ⟨rfl, rfl, rfl⟩ := hexec.of_messageDone
        exact ⟨hs.callback, fun h => absurd h hbelow, fun h => absurd h Bool.false_ne_true,
          fun _ h => absurd h Bool.false_ne_true⟩
      · by_cases hready : op = .messageReady
        · subst hready
          exact hs.noMessage hexec hlabel hbelow
        · exact hs.of_quiet hstack hexec hlabel hready hdone

theorem silent_of_reachable (hs : Machine.Reachable Session.step CutOff Fresh s) : s.Silent :=
  hs.invariant (fun _ hs => hs.silent) fun _ _ _ hs hinv hcut h =>
    hinv.step (stacked_of_reachable hs) hcut h

theorem closing_of_reachable {ok : Session → Label → Prop}
    (hs : Machine.Reachable Session.step ok Fresh s) : s.Closing := by
  refine hs.invariant (fun s hs => ?_) fun _ _ _ _ hinv _ h => hinv.step h
  rw [Closing, hs.history, hs.stack]
  exact Nat.zero_le _

/-- A `read` that completes a frame is followed by the callback, whatever the state. -/
theorem message_of_completes (hs : Machine.Reachable Session.step CutOff Fresh s) {count : Nat}
    {r : ReadResult} (hcompletes : s.conn.Completes r) (h : s.step (.read count r) = some s')
    (calls : List Call) : (s'.step (.onMessage calls)).isSome := by
  have hsilent := silent_of_reachable hs
  rcases step_cases h with ⟨-, _, h, -⟩ | ⟨-, _, h, -⟩ | ⟨op, rest, conn, ops, hstack, hexec, rfl⟩
  · cases h
  · cases h
  · cases Op.exec_cases hexec with
    | read hcount =>
        obtain ⟨hready, hops⟩ := Connection.ready_of_completes hcompletes
        obtain ⟨_, _, _, _, _, hframe⟩ := s.conn.readNonBlocking_frame r
        have hmessage : (s.conn.readNonBlocking r).1.hasMessage = true := by
          rw [Connection.hasMessage, hready, hframe, Bool.and_true]
          exact hsilent.callback
        have hmem := hsilent.loop (hstack ▸ List.mem_cons_self)
        rw [hstack] at hmem
        have hhead := (stacked_of_reachable hs).messageReady hstack
          ((List.mem_cons.mp hmem).resolve_left (by decide))
        obtain ⟨below, rfl⟩ := List.head?_eq_some_iff.mp hhead
        simp [step, hops, Op.exec, hmessage]

theorem closed_of_closes {ok : Session → Label → Prop}
    (hs : Machine.Reachable Session.step ok Fresh s) (hclosed : 0 < s.history.closes) :
    s.conn.state = .disconected := (closing_of_reachable hs).disconected hclosed

theorem not_message_of_closes (hs : Machine.Reachable Session.step CutOff Fresh s)
    (hclosed : 0 < s.history.closes) (calls : List Call) : s.step (.onMessage calls) = none := by
  by_contra hstep
  obtain ⟨s', h⟩ := Option.ne_none_iff_exists'.mp hstep
  rcases step_cases h with ⟨-, _, h, -⟩ | ⟨-, _, h, -⟩ | ⟨op, rest, conn, ops, hstack, hexec, -⟩
  · cases h
  · cases h
  · cases Op.exec_cases hexec with
    | message hmessage =>
        have hdone := (silent_of_reachable hs).closed (closed_of_closes hs hclosed)
          (Bool.and_eq_true_iff.mp hmessage).2
        have hstacked := stacked_of_reachable hs
        rw [Stacked, hstack, List.pairwise_cons] at hstacked
        rw [hstack] at hdone
        have habove := hstacked.1 _ ((List.mem_cons.mp hdone).resolve_left (by decide))
        simp [Op.Above, Op.isWriter] at habove

/-- **No message callback after the close callback**, in every run in which no `read` completes a frame after
the close; and the first one that does is followed by a message callback. -/
theorem no_message_after_close (hs : Machine.Reachable Session.step CutOff Fresh s)
    (hclosed : 0 < s.history.closes) : (∀ calls, s.step (.onMessage calls) = none) ∧
      ∀ label s', s.step label = some s' →
        (s.CutOff label ↔ ∀ calls, s'.step (.onMessage calls) = none) := by
  refine ⟨not_message_of_closes hs hclosed, fun label s' h => ⟨fun hcut => ?_, fun hsilent => ?_⟩⟩
  · have hcloses := step_closes h
    exact not_message_of_closes (.step hs hcut h) (by omega)
  · cases label with
    | read count r =>
        intro _ hcompletes
        have hmessage := message_of_completes hs hcompletes h []
        rw [hsilent []] at hmessage
        cases hmessage
    | _ => trivial

set_option maxRecDepth 10000 in
/-- The peer ends the stream inside a body; later the rest of the body comes all the same, but for one
byte. -/
theorem no_message_after_close_cut : ∃ s : Session, Machine.Reachable Session.step CutOff Fresh s ∧
    s.history.closes = 1 ∧ s.conn.readBuffer = [1, 2, 3, 0] ∧ ∀ calls, s.step (.onMessage calls) = none := by
  have hfresh := fresh_connectionEstablished 0 5 .invalid false true true
  obtain ⟨s, hrun, hcloses, hbuffer⟩ : ∃ s,
      Machine.run step CutOff (new (((Connection.new 0 5 .invalid false
          true).setCloseCallback.setMessageCallback).connectionEstablished true))
        [.event { EpollEvents.none with epollin := true }, .tau,
          .read 8 (.data [0, 0, 0, 0, 0, 0, 0, 4]), .read 4 (.data [1]), .read 3 (.data []), .tau,
          .onClose, .tau, .event { EpollEvents.none with epollin := true }, .tau,
          .read 3 (.data [2, 3])] = some s ∧
      s.history.closes = 1 ∧ s.conn.readBuffer = [1, 2, 3, 0] := ⟨_, rfl, rfl, rfl⟩
  have hs : Machine.Reachable Session.step CutOff Fresh s := .run (.init hfresh) hrun
  exact ⟨s, hs, hcloses, hbuffer, (no_message_after_close hs (by omega)).1⟩

set_option maxRecDepth 10000 in
/-- `WriteNonBlocking` fails for good, and the next event finds a frame that was queued before. -/
theorem message_after_close :
    ¬∀ s, Machine.Reachable Session.step (fun _ _ => True) Fresh s → 0 < s.history.closes →
      ∀ calls, s.step (.onMessage calls) = none := by
  intro hsilent
  have hfresh := fresh_connectionEstablished 0 5 .invalid false true true
  obtain ⟨s, hrun, hcloses, hstep⟩ : ∃ s,
      Machine.run step (fun _ _ => True) (new (((Connection.new 0 5 .invalid false
          true).setCloseCallback.setMessageCallback).connectionEstablished true))
        [.call (.send2 [7]), .tau, .epollCtl true,
          .event { EpollEvents.none with epollout := true },
          .write [0, 0, 0, 0, 0, 0, 0, 1, 7] (.error (.other 104)), .tau, .onClose,
          .event { EpollEvents.none with epollin := true }, .tau,
          .read 8 (.data [0, 0, 0, 0, 0, 0, 0, 1]), .read 1 (.data [7])] = some s ∧
      s.history.closes = 1 ∧ (s.step (.onMessage [])).isSome := ⟨_, rfl, rfl, rfl⟩
  rw [hsilent s (.run (.init hfresh) hrun) (by omega) []] at hstep
  cases hstep

end Session

end EpollServer
