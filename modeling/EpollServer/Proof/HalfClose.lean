import EpollServer.Proof.Bounds
import EpollServer.Proof.Closing
import EpollServer.Proof.Echo

/-!
# Replies on a connection that is closing

The echo server closes a connection as soon as it reads the end of the stream. From then on no frame is
delivered and nothing is sent: every message delivered has been answered, and the send buffer only empties.
Where every `write` takes all it is given, the event in which the end is read also flushes what was buffered.
-/

namespace EpollServer

/-- When the peer has ended the stream and all is read, a `read` finds the end or is interrupted. -/
theorem Socket.read_at_end {k k' : Socket} {count : Nat} {r : ReadResult} (h : k.read count r = some k')
    (hnil : k.recvQueue = []) (hfin : k.fin = true) (hsoft : r.isHard = false) :
    k' = k ∧ (r = .data [] ∨ r = .error .eintr) := by
  cases r with
  | data data =>
      cases data with
      | nil =>
          obtain ⟨-, h⟩ := Option.ite_none_right_eq_some.mp h
          exact ⟨(Option.some.inj h).symm, .inl rfl⟩
      | cons b bs =>
          obtain ⟨hfront, -⟩ := Option.ite_none_right_eq_some.mp h
          rw [hnil, List.take_nil] at hfront
          cases hfront
  | error errno =>
      cases errno with
      | eintr =>
          cases h
          exact ⟨rfl, .inr rfl⟩
      | eagain | ewouldblock =>
          obtain ⟨-, h⟩ := Option.ite_none_left_eq_some.mp h
          obtain ⟨hopen, -⟩ := Option.ite_none_left_eq_some.mp h
          exact absurd ⟨rfl, .inr hfin⟩ hopen
      | other => cases hsoft

namespace Op

variable {c c' : Connection} {op : Op} {label : Label} {ops : List Op}

/-- Where no `write` fails for good and no one asks for the close, only the read loop begins it. -/
theorem Exec.ends (h : Exec c op label c' ops) (hsoft : label.isHard = false)
    (hcall : op ≠ .call .handleClose) (hends : c'.state = .disconected ∨ .handleClose ∈ ops) :
    c.state = .disconected ∨ op = .handleClose ∨ ∃ r, op = .readNonBlocking ∧
      label = .read c.readCount r ∧ r.bytes.length ≤ c.readCount ∧ c' = (c.readNonBlocking r).1 ∧
        .handleClose ∈ (c.readNonBlocking r).2 := by
  cases h with
  | writeFailed _ _ hhard | flushFailed hhard => exact absurd (hsoft.symm.trans hhard) Bool.false_ne_true
  | callClose => exact absurd rfl hcall
  | closed | close => exact .inr (.inl rfl)
  | @read r hcount =>
      obtain ⟨_, _, _, _, _, hframe⟩ := c.readNonBlocking_frame r
      rcases hends with hstate | hmem
      · rw [hframe] at hstate
        exact .inl hstate
      · exact .inr (.inr ⟨r, rfl, rfl, hcount, rfl, hmem⟩)
  | _ => exact .inl (by simpa [Connection.messageDone, Connection.sendWithTwoSysCall] using hends)

theorem Exec.drains (h : Exec c op label c' ops) (hb : c.sendBuffer.Ok) (hdirect : op.isDirect = false)
    (hcall : ∀ f, op ≠ .call f) : c'.sendBuffer.readable <:+ c.sendBuffer.readable := by
  cases h with
  | writeFailed hop | writeAll hop | writePart hop | queueNone hop | queueAll hop =>
      cases op with
      | call f => exact absurd rfl (hcall f)
      | sendInternal => cases hdirect
      | _ => exact hop.elim
  | send2 | sendWithTwoSysCall | callClose => exact absurd rfl (hcall _)
  | flush hcount hretrieve =>
      rw [(hb.of_retrieve hcount hretrieve).2.1]
      exact List.drop_suffix _ _
  | retrieveNone hretrieve =>
      rw [(hb.of_retrieve (Nat.zero_le _) hretrieve).2.1]
      exact List.drop_suffix _ _
  | @read r =>
      obtain ⟨_, _, _, _, _, hframe⟩ := c.readNonBlocking_frame r
      rw [hframe]
  | _ => exact List.suffix_rfl

theorem Exec.flushes {bytes : List UInt8} (h : Exec c .handleWrite (.write bytes (.accepted bytes.length)) c' ops)
    (hb : c.sendBuffer.Ok) : c'.sendBuffer.readable = [] := by
  cases h with
  | flush hcount hretrieve =>
      rw [(hb.of_retrieve hcount hretrieve).2.1, List.drop_length]
  | flushRetry hcount => exact List.length_eq_zero_iff.mp hcount
  | flushFailed hhard => cases hhard
  | writeFailed hop | writeAll hop | writePart hop => exact hop.elim

theorem Exec.reads (h : Exec c op label c' ops) :
    .handleMessage ∉ ops ∧ (.readNonBlocking ∈ ops → op = .handleMessage ∨ op = .readNonBlocking) := by
  cases h with
  | @read r => rcases c.readNonBlocking_ops r with heq | heq | heq <;> simp [heq]
  | close => split <;> simp
  | _ => simp [Connection.sendWithTwoSysCall]

end Op

namespace Session

/-- The connection is closed, or about to be. -/
def Ended (s : Session) : Prop := s.conn.state = .disconected ∨ .handleClose ∈ s.stack

end Session

namespace Endpoint

variable {n n' : Endpoint} {action : Action}

/-- The echo server's callback, on a kernel where no `read` and no `write` fails for good; no one else uses
the connection. -/
def Replies (n : Endpoint) : Action → Prop
  | .run (.onMessage calls) _ => calls = EchoServer.onMessage n.session.conn
  | .run (.read _ r) _ => r.isHard = false
  | .run (.write _ r) _ => r.isHard = false
  | .run (.call _) _ => False
  | _ => True

instance (n : Endpoint) : (action : Action) → Decidable (n.Replies action)
  | .run (.onMessage calls) _ =>
      inferInstanceAs (Decidable (calls = EchoServer.onMessage n.session.conn))
  | .run (.read _ r) _ => inferInstanceAs (Decidable (r.isHard = false))
  | .run (.write _ r) _ => inferInstanceAs (Decidable (r.isHard = false))
  | .run (.call _) _ => .isFalse id
  | .run (.event _) _ | .run .tau _ | .run (.epollCtl _) _ | .run .onClose _ => .isTrue trivial
  | .arrive _ | .fin | .drain | .epollWait => .isTrue trivial

theorem Replies.session {label : Label} {full : Bool} (h : n.Replies (.run label full)) :
    n.session.Echoes label := by
  cases label with
  | onMessage | call => exact h
  | _ => trivial

theorem Replies.soft {label : Label} {full : Bool} (h : n.Replies (.run label full)) :
    label.isHard = false := by
  cases label with
  | write => exact h
  | _ => rfl

/-- Registrations succeed, and every `write` takes all it is given and leaves the send queue with room. -/
def Flows (_ : Endpoint) : Action → Prop
  | .run (.epollCtl ok) _ => ok = true
  | .run (.write bytes r) full => r = .accepted bytes.length ∧ full = false
  | _ => True

instance (n : Endpoint) : (action : Action) → Decidable (n.Flows action)
  | .run (.epollCtl ok) _ => inferInstanceAs (Decidable (ok = true))
  | .run (.write bytes r) full =>
      inferInstanceAs (Decidable (r = .accepted bytes.length ∧ full = false))
  | .run (.event _) _ | .run (.call _) _ | .run .tau _ | .run (.read _ _) _ | .run (.onMessage _) _
  | .run .onClose _ => .isTrue trivial
  | .arrive _ | .fin | .drain | .epollWait => .isTrue trivial

theorem Flows.flushes (h : n.Flows action) : n.Flushes action := by
  cases action with
  | run label full =>
      cases label with
      | epollCtl => exact h
      | write =>
          obtain ⟨rfl, -⟩ := h
          rfl
      | _ => trivial
  | _ => trivial

/-- The replies of a connection that is closed, or about to be: no frame is complete, and none can become
complete any more. -/
structure Ending (n : Endpoint) : Prop where
  state : n.session.conn.state = .connected ∨ n.session.conn.state = .disconected
  calls : ∀ f, .call f ∈ n.session.stack → (∃ msg, f = .send2 msg) ∧ ¬n.session.Ended
  answered : n.session.history.sent ++ n.session.stack.flatMap History.starts = n.session.history.seen
  spent : n.session.Ended → ¬n.session.conn.reader.Full ∧
    (n.socket.recvQueue = [] ∧ n.socket.fin = true ∨ n.session.conn.overlong)

theorem Fresh.ending (hn : n.Fresh) : n.Ending := by
  have hstack := hn.session.stack
  have hstate := hn.session.state
  refine ⟨.inl hstate, fun f h => ?_, ?_, fun h => ?_⟩
  · rw [hstack] at h
    exact absurd h List.not_mem_nil
  · rw [hstack, hn.session.history]
    rfl
  · rw [Session.Ended, hstack, hstate] at h
    simp at h

theorem Ending.not_ready (hn : n.Ending) (hreading : n.session.Reading) (hended : n.session.Ended) :
    n.session.conn.readyToHandleMessage = false := by
  obtain ⟨_, _, -, hat, -⟩ := hreading
  exact Bool.eq_false_iff.mpr fun hready => (hn.spent hended).1 (hat.full_of_ready hready)

theorem Ending.open_of_message (hn : n.Ending) (hreading : n.session.Reading)
    (hmessage : n.session.conn.hasMessage = true) : ¬n.session.Ended := fun hended =>
  absurd ((hn.not_ready hreading hended).symm.trans (Bool.and_eq_true_iff.mp hmessage).2)
    Bool.false_ne_true

section Run

variable {op : Op} {rest ops : List Op} {conn : Connection} {label : Label} {socket : Socket}
  {full : Bool}

theorem Ending.ended_run (hn : n.Ending) (hstack : n.session.stack = op :: rest)
    (hexec : op.Exec n.session.conn label conn ops) (hsoft : label.isHard = false)
    (hended : conn.state = .disconected ∨ .handleClose ∈ ops ++ rest) :
    n.session.Ended ∨ ∃ r, op = .readNonBlocking ∧ label = .read n.session.conn.readCount r ∧
      r.bytes.length ≤ n.session.conn.readCount ∧ conn = (n.session.conn.readNonBlocking r).1 ∧
        .handleClose ∈ (n.session.conn.readNonBlocking r).2 := by
  have hcall : op ≠ .call .handleClose := by
    rintro rfl
    obtain ⟨⟨msg, hmsg⟩, -⟩ := hn.calls .handleClose (hstack ▸ List.mem_cons_self)
    cases hmsg
  rw [List.mem_append, ← or_assoc] at hended
  rcases hended with hends | hmem
  · rcases hexec.ends hsoft hcall hends with hstate | rfl | hread
    · exact .inl (.inl hstate)
    · exact .inl (.inr (hstack ▸ List.mem_cons_self))
    · exact .inr hread
  · exact .inl (.inr (hstack ▸ List.mem_cons_of_mem op hmem))

/-- After its end a connection reads nothing any more. -/
theorem Ending.spent_run (hn : n.Ending) (hreading : n.session.Reading) (hstack : n.session.stack = op :: rest)
    (hexec : op.Exec n.session.conn label conn ops) (hreplies : n.Replies (.run label full))
    (hanswer : n.answer label full = some socket)
    (hended : conn.state = .disconected ∨ .handleClose ∈ ops ++ rest) :
    ¬conn.reader.Full ∧ (socket.recvQueue = [] ∧ socket.fin = true ∨ conn.overlong) := by
  have hready := hn.not_ready hreading
  have hopen := hn.open_of_message hreading
  obtain ⟨_, _, -, hat, hdone, -⟩ := hreading
  have hover {r : ReadResult} (hcount : r.bytes.length ≤ n.session.conn.readCount)
      (h : (n.session.conn.readNonBlocking r).1.overlong) :
      ¬(n.session.conn.readNonBlocking r).1.reader.Full :=
    Connection.not_full_of_overlong (Connection.at_readNonBlocking hat hcount) h
  rcases hn.ended_run hstack hexec hreplies.soft hended with hbefore | ⟨r, rfl, rfl, hcount, rfl, hclose⟩
  · obtain ⟨hfull, hspent⟩ := hn.spent hbefore
    have hready := hready hbefore
    by_cases hlabel : label.isReader = true
    · cases hexec with
      | @read r hcount =>
          rcases hspent with ⟨hnil, hfin⟩ | hspent
          · obtain ⟨rfl, rfl | rfl⟩ := Socket.read_at_end hanswer hnil hfin hreplies
            · rw [Connection.readNonBlocking_nil hat hfull]
              exact ⟨hfull, .inl ⟨hnil, hfin⟩⟩
            · have hsame : (n.session.conn.readNonBlocking (.error .eintr)).1 = n.session.conn := by
                unfold Connection.readNonBlocking
                split <;> rfl
              rw [hsame]
              exact ⟨hfull, .inl ⟨hnil, hfin⟩⟩
          · have hspent := Connection.overlong_readNonBlocking hspent r
            exact ⟨hover hcount hspent, .inr hspent⟩
      | message hmessage => exact absurd hbefore (hopen hmessage)
      | _ => cases hlabel
    · have hop : op ≠ .messageDone := by
        rintro rfl
        exact absurd (hready.symm.trans (hdone (hstack ▸ List.mem_cons_self))) Bool.false_ne_true
      have hreader := hexec.reader_eq (Bool.eq_false_iff.mpr hlabel) hop
      have hlen : conn.readTlvHeaderLength = n.session.conn.readTlvHeaderLength :=
        congrArg Reader.readTlvHeaderLength hreader
      have hheader : conn.tlvHeader = n.session.conn.tlvHeader := congrArg Reader.tlvHeader hreader
      obtain ⟨hqueue, hfin, -⟩ := answer_spec hanswer
      rw [hreader, hfin, Connection.overlong, hlen, hheader]
      refine ⟨hfull, hspent.imp_left fun hend => ⟨?_, hend.2⟩⟩
      exact (List.append_eq_nil_iff.mp (hqueue.symm.trans hend.1)).2
  · rcases Connection.of_close_readNonBlocking hreplies hclose with ⟨rfl, hfull⟩ | hspent
    · rw [Connection.readNonBlocking_nil hat hfull]
      refine ⟨hfull, ?_⟩
      obtain ⟨hend, h⟩ := Option.ite_none_right_eq_some.mp hanswer
      cases h
      rcases hend with hzero | hend
      · exact .inr ((Connection.of_readCount_eq_zero hat hzero).resolve_left hfull)
      · exact .inl hend
    · exact ⟨hover hcount hspent, .inr hspent⟩

/-- Only the callback starts to send, and only on an open connection. -/
theorem Ending.calls_run (hn : n.Ending) (hreading : n.session.Reading) (hstacked : n.session.Stacked)
    (hstack : n.session.stack = op :: rest) (hexec : op.Exec n.session.conn label conn ops)
    (hreplies : n.Replies (.run label full)) {f : Call} (hf : .call f ∈ ops ++ rest) :
    (∃ msg, f = .send2 msg) ∧ ¬(conn.state = .disconected ∨ .handleClose ∈ ops ++ rest) := by
  rw [Session.Stacked, hstack, List.pairwise_cons] at hstacked
  by_cases hlabel : ∃ calls, label = .onMessage calls
  · obtain ⟨calls, rfl⟩ := hlabel
    cases hexec with
    | message hmessage =>
        have hopen := hn.open_of_message hreading hmessage
        obtain rfl : calls = EchoServer.onMessage n.session.conn := hreplies
        refine ⟨?_, fun hended => hopen (hended.imp_right fun hmem => ?_)⟩
        · rcases List.mem_append.mp hf with hmem | hmem
          · unfold EchoServer.onMessage at hmem
            split at hmem <;> simp at hmem
            exact ⟨_, hmem⟩
          · exact (hn.calls f (hstack ▸ List.mem_cons_of_mem _ hmem)).1
        · rw [hstack]
          exact List.mem_cons_of_mem _ (by simpa using hmem)
  · have hmem : .call f ∈ rest := (List.mem_append.mp hf).resolve_left fun hmem => by
      cases hexec with
      | @read r =>
          rcases n.session.conn.readNonBlocking_ops r with heq | heq | heq <;> simp [heq] at hmem
      | message => exact hlabel ⟨_, rfl⟩
      | close => split at hmem <;> simp at hmem
      | _ => simp [Connection.sendWithTwoSysCall] at hmem
    obtain ⟨hsend, hopen⟩ := hn.calls f (hstack ▸ List.mem_cons_of_mem op hmem)
    refine ⟨hsend, fun hended => ?_⟩
    rcases hn.ended_run hstack hexec hreplies.soft hended with hbefore | ⟨r, rfl, -⟩
    · exact hopen hbefore
    · simpa [Op.Above, Op.isWriter] using hstacked.1 _ hmem

theorem Ending.answered_run (hn : n.Ending) (hreading : n.session.Reading)
    (hanswering : n.session.Answering) (hstacked : n.session.Stacked)
    (hstack : n.session.stack = op :: rest) (hexec : op.Exec n.session.conn label conn ops)
    (hreplies : n.Replies (.run label full)) :
    (n.session.history.record n.session.conn op label).sent ++ (ops ++ rest).flatMap History.starts
      = (n.session.history.record n.session.conn op label).seen := by
  by_cases hlabel : ∃ calls, label = .onMessage calls
  · obtain ⟨calls, rfl⟩ := hlabel
    cases hexec with
    | message hmessage =>
        have hstate : n.session.conn.state = .connected :=
          hn.state.resolve_right fun hstate => hn.open_of_message hreading hmessage (.inl hstate)
        obtain rfl : calls = EchoServer.onMessage n.session.conn := hreplies
        exact (hanswering.message hstacked hstack).answered hstate
  · obtain ⟨hstarts, hseen⟩ := Session.starts_run hstack hexec (not_exists.mp hlabel)
    rw [hstarts, hseen]
    exact hn.answered

end Run

theorem Ending.step (hn : n.Ending) (hserving : n.session.Serving) (hreplies : n.Replies action)
    (h : n.step action = some n') : n'.Ending := by
  cases moves_of_step h with
  | arrive hopen | fin hopen =>
      refine ⟨hn.state, hn.calls, hn.answered, fun hended => ?_⟩
      obtain ⟨hfull, hspent⟩ := hn.spent hended
      exact ⟨hfull, .inr (hspent.resolve_left fun hend => by simp [hend.2] at hopen)⟩
  | drain => exact ⟨hn.state, hn.calls, hn.answered, hn.spent⟩
  | epollWait hidle =>
      have hanswered := hn.answered
      rw [hidle] at hanswered
      refine ⟨hn.state, fun f hmem => ?_, ?_, fun hended => ?_⟩
      · simpa using Session.mem_handleEvent hmem
      · rw [Session.starts_handleEvent]
        exact hanswered
      · exact hn.spent (hended.imp_right fun hmem => by simpa using Session.mem_handleEvent hmem)
  | run hanswer hsession =>
      rcases run_cases hanswer hsession with ⟨-, f, rfl, -⟩ | ⟨op, rest, conn, ops, hstack, hexec, rfl⟩
      · exact hreplies.elim
      · refine ⟨?_, fun f => ?_, ?_, ?_⟩
        · rcases hexec.state_eq with heq | heq
          · rw [heq]
            exact hn.state
          · exact .inr heq
        · exact hn.calls_run hserving.reading hserving.stacked hstack hexec hreplies
        · exact hn.answered_run hserving.reading hserving.answering hserving.stacked hstack hexec hreplies
        · exact hn.spent_run hserving.reading hstack hexec hreplies hanswer

theorem serving_step (hserving : n.session.Serving) (hreplies : n.Replies action)
    (h : n.step action = some n') : n'.session.Serving := by
  rcases session_step h with hsame | ⟨events, hstep⟩ | ⟨label, full, rfl, -, hstep⟩
  · rwa [hsame]
  · exact hserving.step (show n.session.Echoes (.event events) from trivial) hstep
  · exact hserving.step hreplies.session hstep

theorem closing_step (hclosing : n.session.Closing) (h : n.step action = some n') :
    n'.session.Closing ∧ n.session.history.closes ≤ n'.session.history.closes := by
  refine session_keeps (P := fun s => s.Closing ∧ n.session.history.closes ≤ s.history.closes) h
    ⟨hclosing, Nat.le_refl _⟩ fun label hstep => ⟨hclosing.step hstep, ?_⟩
  rw [Session.step_closes hstep]
  exact Nat.le_add_right _ _

theorem disconected_step (hstate : n.session.conn.state = .disconected) (h : n.step action = some n') :
    n'.session.conn.state = .disconected :=
  session_keeps (P := fun s => s.conn.state = .disconected) h hstate
    fun _ hstep => Session.step_disconected hstep hstate

section Drain

variable {op : Op} {rest ops : List Op} {conn : Connection} {label : Label} {full : Bool}

/-- Nothing is sent any more when the connection is closed, or about to be, or is going to be read. -/
theorem Ending.drains_run (hn : n.Ending) (hserving : n.session.Serving)
    (hstack : n.session.stack = op :: rest) (hexec : op.Exec n.session.conn label conn ops)
    (hends : n.session.Ended ∨ .handleMessage ∈ n.session.stack ∨ .readNonBlocking ∈ n.session.stack) :
    conn.sendBuffer.readable <:+ n.session.conn.sendBuffer.readable := by
  refine hexec.drains hserving.sending.ok
    (hserving.answering.buffered op (hstack ▸ List.mem_cons_self)) fun f hop => ?_
  subst hop
  have hstacked := hserving.stacked
  rw [Session.Stacked, hstack, List.pairwise_cons] at hstacked
  rcases hends with hended | hmem | hmem
  · exact (hn.calls f (hstack ▸ List.mem_cons_self)).2 hended
  · rw [hstack] at hmem
    exact hstacked.1 _ ((List.mem_cons.mp hmem).resolve_left (by simp))
  · rw [hstack] at hmem
    exact hstacked.1 _ ((List.mem_cons.mp hmem).resolve_left (by simp))

end Drain

theorem Ending.drains_step (hn : n.Ending) (hserving : n.session.Serving) (hended : n.session.Ended)
    (h : n.step action = some n') :
    n'.session.conn.sendBuffer.readable <:+ n.session.conn.sendBuffer.readable := by
  refine session_keeps
    (P := fun s => s.conn.sendBuffer.readable <:+ n.session.conn.sendBuffer.readable) h
    List.suffix_rfl fun label hstep => ?_
  rcases Session.step_cases hstep with ⟨-, events, -, heq⟩ | ⟨-, f, -, heq⟩ |
    ⟨op, rest, conn, ops, hstack, hexec, heq⟩ <;> rw [heq]
  · exact List.suffix_rfl
  · exact hn.drains_run hserving hstack (Op.exec_cases hexec) (.inl hended)

/-- Where every `write` takes all it is given, what is buffered is flushed before the event ends in which
the connection is read. -/
structure Draining (n : Endpoint) : Prop where
  flushing : n.Flushing
  room : n.socket.sendFull = false
  pending : n.session.Ended ∨ .handleMessage ∈ n.session.stack ∨ .readNonBlocking ∈ n.session.stack →
    n.session.conn.sendBuffer.readable ≠ [] → .handleWrite ∈ n.session.stack

theorem Fresh.draining (hn : n.Fresh) (hroom : n.socket.sendFull = false) : n.Draining := by
  have hempty : n.session.conn.sendBuffer.readable = [] := by rw [hn.session.sendBuffer]; rfl
  exact ⟨hn.flushing, hroom, fun _ h => absurd hempty h⟩

section Flow

variable {op : Op} {rest ops : List Op} {conn : Connection} {label : Label} {socket : Socket}
  {full : Bool}

theorem Draining.room_run (hn : n.Draining) (hflows : n.Flows (.run label full))
    (hanswer : n.answer label full = some socket) : socket.sendFull = false := by
  cases label with
  | event => cases hanswer
  | read =>
      obtain ⟨-, hframe, -⟩ := Socket.read_spec hanswer
      rw [hframe]
      exact hn.room
  | write bytes r =>
      obtain ⟨rfl, rfl⟩ := hflows
      cases hanswer
      simp [Socket.write, hn.room]
  | call | tau | epollCtl | onMessage | onClose =>
      cases hanswer
      exact hn.room

theorem Draining.pending_run (hn : n.Draining) (hending : n.Ending) (hserving : n.session.Serving)
    (hstack : n.session.stack = op :: rest) (hexec : op.Exec n.session.conn label conn ops)
    (hreplies : n.Replies (.run label full)) (hflows : n.Flows (.run label full))
    (hends : (conn.state = .disconected ∨ .handleClose ∈ ops ++ rest) ∨
      .handleMessage ∈ ops ++ rest ∨ .readNonBlocking ∈ ops ++ rest)
    (hrest : conn.sendBuffer.readable ≠ []) : .handleWrite ∈ ops ++ rest := by
  have hbefore : n.session.Ended ∨ .handleMessage ∈ n.session.stack ∨ .readNonBlocking ∈ n.session.stack := by
    obtain ⟨hmessage, hread⟩ := hexec.reads
    have hbelow {a : Op} (hmem : a ∈ rest) : a ∈ n.session.stack := hstack ▸ List.mem_cons_of_mem op hmem
    rcases hends with hended | hmem | hmem
    · rcases hending.ended_run hstack hexec hreplies.soft hended with hended | ⟨r, rfl, -⟩
      · exact .inl hended
      · exact .inr (.inr (hstack ▸ List.mem_cons_self))
    · exact .inr (.inl (hbelow ((List.mem_append.mp hmem).resolve_left hmessage)))
    · rcases List.mem_append.mp hmem with hmem | hmem
      · rcases hread hmem with rfl | rfl
        · exact .inr (.inl (hstack ▸ List.mem_cons_self))
        · exact .inr (.inr (hstack ▸ List.mem_cons_self))
      · exact .inr (.inr (hbelow hmem))
  have hpending := hn.pending hbefore fun hnil => by
    have hsuffix := hending.drains_run hserving hstack hexec hbefore
    rw [hnil] at hsuffix
    exact hrest (List.suffix_nil.mp hsuffix)
  refine mem_rest hstack hpending ?_
  rintro rfl
  cases label with
  | write bytes r =>
      obtain ⟨rfl, -⟩ := hflows
      exact hrest (hexec.flushes hserving.sending.ok)
  | tau =>
      cases hexec with
      | queueNone hop | queueAll hop => exact hop.elim
  | _ => cases hexec

end Flow

theorem Draining.step (hn : n.Draining) (hending : n.Ending) (hserving : n.session.Serving)
    (hreplies : n.Replies action) (hflows : n.Flows action) (h : n.step action = some n') : n'.Draining := by
  have hflushing := hn.flushing.step hserving.sending.ok hflows.flushes h
  cases moves_of_step h with
  | arrive | fin | drain => exact ⟨hflushing, by simp [hn.room], hn.pending⟩
  | epollWait hidle =>
      exact ⟨hflushing, hn.room, fun _ hrest => hn.flushing.handleWrite_mem hidle hrest hn.room⟩
  | run hanswer hsession =>
      rcases run_cases hanswer hsession with ⟨-, f, rfl, -⟩ | ⟨op, rest, conn, ops, hstack, hexec, rfl⟩
      · exact hreplies.elim
      · exact ⟨hflushing, hn.room_run hflows hanswer,
          hn.pending_run hending hserving hstack hexec hreplies hflows⟩

end Endpoint

end EpollServer
