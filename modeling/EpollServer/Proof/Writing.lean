import EpollServer.Proof.Delivery

/-!
# What the send functions put out

The three ways to send share one send buffer. At any point of a run the bytes that the kernel took, the
bytes in the buffer and the halves of a two-part message that are not handled yet make up the frames of
all messages sent, in the order of the calls: every operation moves bytes from the right of this
concatenation to the left, however much a `write` accepts.
-/

namespace EpollServer

/-- The bytes that the kernel took in a step. -/
def Label.written : Label → List UInt8
  | .write bytes r => bytes.take r.count
  | _ => []

/-- A `write` that fails for good. -/
def Label.isHard : Label → Bool
  | .write _ r => r.isHard
  | _ => false

/-- The bytes buffered since the buffer was last empty, which `write_index_` counts, and the frame of
the message fit in an `int`. -/
def Call.Fits (f : Call) (b : Buffer) : Prop :=
  match f with
  | .send msg _ | .send2 msg | .sendWithTwoSysCall msg =>
      b.writeIndex + (tlvHeaderLength + msg.length : Nat) ≤ CInt.max
  | .handleClose => True

instance (f : Call) (b : Buffer) : Decidable (f.Fits b) := by
  unfold Call.Fits
  split <;> infer_instance

/-- The stack of the thread holds the array in which `Send` puts the frame together. -/
def Call.OnStack : Call → Prop
  | .send msg room => tlvHeaderLength + msg.length ≤ room
  | .send2 _ | .sendWithTwoSysCall _ | .handleClose => True

instance : ∀ f : Call, Decidable f.OnStack
  | .send _ _ => inferInstanceAs (Decidable (_ ≤ _))
  | .send2 _ | .sendWithTwoSysCall _ | .handleClose => inferInstanceAs (Decidable True)

namespace Op

/-- The bytes of an operation that belongs to a message whose sending has begun. -/
def unsent : Op → List UInt8
  | .sendInternal msg => Connection.internalResponse msg
  | _ => []

/-- The bytes that an operation is to put out. -/
def output (op : Op) : List UInt8 := op.unsent ++ (History.starts op).flatMap frameBytes

/-- The bytes that an operation does put out, where it is defined. -/
def emitted (op : Op) : List UInt8 :=
  op.unsent ++ (History.starts op).flatMap fun msg =>
    Connection.headerBytes msg.length ++ Connection.internalResponse msg

/-- Whatever the environment answers, the operation can be run. -/
def CanRun (c : Connection) (op : Op) : Prop :=
  (op.exec c .tau).isSome ∨ (op.exec c .onClose).isSome ∨
    (∀ ok, (op.exec c (.epollCtl ok)).isSome) ∨ (∀ calls, (op.exec c (.onMessage calls)).isSome) ∨
    (∃ count, ∀ r : ReadResult, r.bytes.length ≤ count → (op.exec c (.read count r)).isSome) ∨
    ∃ bytes, ∀ r : WriteResult, r.count ≤ bytes.length → (op.exec c (.write bytes r)).isSome

variable {c c' : Connection} {op : Op} {label : Label} {ops : List Op}

theorem headerBytes_append (msg : List UInt8) :
    Connection.headerBytes msg.length ++ msg = frameBytes msg := by
  rw [Connection.headerBytes, TLVHeader.bytes_swapped, frameBytes]

theorem ofSize_of_fits {msg : List UInt8} {b : Buffer} (hb : b.Ok)
    (hfits : b.writeIndex + (tlvHeaderLength + msg.length : Nat) ≤ CInt.max) :
    CInt.ofSize msg.length = msg.length := by
  have h₁ := hb.readIndex_nonneg
  have h₂ := hb.readIndex_le
  apply CInt.ofSize_eq
  omega

theorem output_send (f : Call) (msg : List UInt8) (hf : History.starts (.call f) = [msg]) :
    (Op.call f).output = frameBytes msg := by
  rw [output, hf]
  simp [unsent]

theorem emitted_send (f : Call) (msg : List UInt8) (hf : History.starts (.call f) = [msg]) :
    (Op.call f).emitted = Connection.headerBytes msg.length ++ Connection.internalResponse msg := by
  rw [emitted, hf]
  simp [unsent]

theorem internalResponse_of_size {msg : List UInt8} (h : CInt.ofSize msg.length = msg.length) :
    Connection.internalResponse msg = msg := by
  rw [Connection.internalResponse, h, Int.toNat_natCast, List.take_length]

theorem internalResponse_headerBytes (len : Nat) :
    Connection.internalResponse (Connection.headerBytes len) = Connection.headerBytes len :=
  List.take_of_length_le (Nat.le_refl _)

theorem unsent_sendWithTwoSysCall (msg : List UInt8) :
    (Connection.sendWithTwoSysCall msg).flatMap unsent = (Op.call (.sendWithTwoSysCall msg)).emitted := by
  rw [emitted_send _ msg rfl, Connection.sendWithTwoSysCall]
  simp only [List.flatMap_cons, List.flatMap_nil, List.append_nil, unsent, internalResponse_headerBytes]

theorem emitted_eq_output (hsize : ∀ msg ∈ History.starts op, CInt.ofSize msg.length = msg.length) :
    op.emitted = op.output := by
  rw [emitted, output, List.flatMap_congr fun msg hmsg => ?_]
  rw [internalResponse_of_size (hsize msg hmsg), headerBytes_append]

theorem writes_send {msg : List UInt8} {room : Nat} (hb : c.sendBuffer.Ok)
    (hfits : c.sendBuffer.writeIndex + (tlvHeaderLength + msg.length : Nat) ≤ CInt.max)
    (hroom : (Call.send msg room).OnStack) : Op.Writes (.call (.send msg room)) (frameBytes msg) := by
  have h₁ := hb.readIndex_nonneg
  have h₂ := hb.readIndex_le
  have hsize : CInt.ofSize (tlvHeaderLength + msg.length) = (tlvHeaderLength + msg.length : Nat) :=
    CInt.ofSize_eq (by omega)
  rw [Writes, Connection.sendResponse, if_pos ⟨hsize.trans (Int.natCast_add _ _), hroom⟩,
    headerBytes_append]

theorem Writes.bytes_eq {bytes : List UInt8} (hop : op.Writes bytes) : bytes = op.emitted := by
  cases op with
  | call f =>
      cases f with
      | send msg room =>
          obtain ⟨⟨hsize, -⟩, h⟩ := Option.ite_none_right_eq_some.mp hop
          rw [← Option.some.inj h, emitted_send _ msg rfl, internalResponse_of_size]
          exact CInt.ofSize_of_add hsize
      | send2 | sendWithTwoSysCall | handleClose => exact hop.elim
  | sendInternal msg =>
      obtain rfl : bytes = Connection.internalResponse msg := hop
      simp [emitted, unsent, History.starts]
  | _ => exact hop.elim

/-- An operation that moves no bytes and is not about a message. -/
theorem emits_of_silent (hops : ops.flatMap unsent = []) (hop : op.emitted = [])
    (hbuffer : c'.sendBuffer = c.sendBuffer) (hlabel : label.written = []) :
    label.written ++ c'.sendBuffer.readable ++ ops.flatMap unsent = c.sendBuffer.readable ++ op.emitted ∧
      c'.sendBuffer.writeIndex + (ops.flatMap unsent).length
        ≤ c.sendBuffer.writeIndex + op.emitted.length := by
  rw [hops, hop, hbuffer, hlabel]
  exact ⟨by simp, Int.le_refl _⟩

theorem Exec.buffer_ok (h : Exec c op label c' ops) (hb : c.sendBuffer.Ok) : c'.sendBuffer.Ok := by
  cases h with
  | writePart hop hempty hsoft hcount happend => exact (hb.of_append happend).1
  | queueAll hop hbusy happend => exact (hb.of_append happend).1
  | send2 hheader hbody => exact ((hb.of_append hheader).1.of_append hbody).1
  | flush hcount hretrieve => exact (hb.of_retrieve hcount hretrieve).1
  | retrieveNone hretrieve => exact (hb.of_retrieve (Nat.zero_le _) hretrieve).1
  | @read r hcount =>
      obtain ⟨_, _, _, _, _, hframe⟩ := c.readNonBlocking_frame r
      rwa [hframe]
  | _ => exact hb

/-- **No operation loses, doubles or reorders a byte**, unless a direct `write` fails for good. -/
theorem Exec.emits (h : Exec c op label c' ops) (hb : c.sendBuffer.Ok)
    (hkeeps : label.isHard = true → op = .handleWrite) :
    label.written ++ c'.sendBuffer.readable ++ ops.flatMap unsent = c.sendBuffer.readable ++ op.emitted ∧
      c'.sendBuffer.writeIndex + (ops.flatMap unsent).length
        ≤ c.sendBuffer.writeIndex + op.emitted.length := by
  cases h with
  | writeFailed hop hempty hhard =>
      rw [hkeeps hhard] at hop
      exact hop.elim
  | @writeAll _ bytes r hop hempty hsoft hcount =>
      have hnil := hb.readable_eq_nil_iff.mpr hempty
      refine ⟨?_, ?_⟩
      · rw [hnil, ← hop.bytes_eq, Label.written, hcount, List.take_length]
        simp
      · simp
  | @writePart _ bytes r buffer hop hempty hsoft hcount happend =>
      have hnil := hb.readable_eq_nil_iff.mpr hempty
      obtain ⟨-, hread, hwrite⟩ := hb.of_append happend
      refine ⟨?_, ?_⟩
      · rw [hread, hnil, ← hop.bytes_eq, Label.written]
        simp [unsent, List.take_of_length_le]
      · rw [hwrite, ← hop.bytes_eq]
        simp [unsent]
  | queueNone hop hbusy =>
      rw [← hop.bytes_eq]
      exact ⟨by simp [Label.written], Int.le_refl _⟩
  | @queueAll _ bytes buffer hop hbusy happend =>
      obtain ⟨-, hread, hwrite⟩ := hb.of_append happend
      refine ⟨?_, ?_⟩
      · rw [hread, ← hop.bytes_eq]
        simp [Label.written, unsent]
      · rw [hwrite, ← hop.bytes_eq]
        simp [unsent]
  | @send2 msg buffer buffer' hheader hbody =>
      obtain ⟨hok, hread, hwrite⟩ := hb.of_append hheader
      obtain ⟨-, hread', hwrite'⟩ := hok.of_append hbody
      obtain ⟨h0, hlen, -⟩ := Buffer.range_of_append hbody
      have hemitted := emitted_send (.send2 msg) msg rfl
      refine ⟨?_, ?_⟩
      · rw [hread', hread, hemitted]
        simp [Label.written, unsent, tlvHeaderLength, Connection.headerBytes, Connection.internalResponse]
      · rw [hwrite', hwrite, hemitted]
        simp [unsent, Connection.internalResponse, Connection.headerBytes]
        omega
  | @sendWithTwoSysCall msg =>
      rw [unsent_sendWithTwoSysCall]
      exact ⟨by simp [Label.written], Int.le_refl _⟩
  | @flush count buffer hcount hretrieve =>
      obtain ⟨-, hread, hwrite⟩ := hb.of_retrieve hcount hretrieve
      refine ⟨?_, Int.add_le_add_right hwrite (0 : Nat)⟩
      rw [hread, Label.written]
      simp [emitted, unsent, History.starts, WriteResult.count]
  | @flushRetry r hcount hsoft =>
      exact emits_of_silent rfl rfl rfl (by rw [Label.written, hcount, List.take_zero])
  | @flushFailed r hhard =>
      have hcount : r.count = 0 := by
        cases r with
        | accepted => cases hhard
        | error => rfl
      exact emits_of_silent rfl rfl rfl (by rw [Label.written, hcount, List.take_zero])
  | @retrieveNone buffer hretrieve =>
      obtain ⟨-, hread, hwrite⟩ := hb.of_retrieve (Nat.zero_le _) hretrieve
      refine ⟨?_, Int.add_le_add_right hwrite (0 : Nat)⟩
      rw [hread]
      simp [Label.written, emitted, unsent, History.starts]
  | @read r hcount =>
      obtain ⟨_, _, _, _, _, hframe⟩ := c.readNonBlocking_frame r
      refine emits_of_silent ?_ rfl (by rw [hframe]) rfl
      rcases c.readNonBlocking_ops r with heq | heq | heq <;> rw [heq] <;> rfl
  | message hmessage =>
      exact emits_of_silent (by simp [unsent, List.flatMap_map]) rfl rfl rfl
  | close hstate =>
      exact emits_of_silent (by split <;> rfl) rfl rfl rfl
  | _ => exact emits_of_silent rfl rfl rfl rfl

theorem bufferRemaining_isSome (hb : c.sendBuffer.Ok) {bytes : List UInt8} {n : Nat}
    (hroom : c.sendBuffer.writeIndex + bytes.length ≤ CInt.max) :
    (c.bufferRemaining bytes n).isSome := by
  unfold Connection.bufferRemaining
  split
  · obtain ⟨buffer, happend, -⟩ := hb.append_spec (bytes.drop n) (bytes.length - n : Nat)
      (Int.natCast_nonneg _) (by rw [List.length_drop]) (by omega)
    rw [happend]
    rfl
  · rfl

theorem afterWrite_isSome (hb : c.sendBuffer.Ok) {bytes : List UInt8} {r : WriteResult}
    (hroom : c.sendBuffer.writeIndex + bytes.length ≤ CInt.max) : (c.afterWrite bytes r).isSome := by
  unfold Connection.afterWrite
  split
  · exact bufferRemaining_isSome hb hroom
  · split
    · exact bufferRemaining_isSome hb hroom
    · rfl

theorem retrieve_isSome (hb : c.sendBuffer.Ok) {n : Nat} (hn : n ≤ c.sendBuffer.readable.length) :
    (c.retrieve n).isSome := by
  obtain ⟨buffer, hretrieve, -⟩ := hb.retrieve_of_le hn
  rw [Connection.retrieve, hretrieve]
  rfl

/-- `response_len` of `SendInternal` is not negative. -/
def Sized : Op → Prop
  | .sendInternal msg => 0 ≤ CInt.ofSize msg.length
  | _ => True

theorem Exec.sized (h : Exec c op label c' ops)
    (hsize : ∀ msg ∈ History.starts op, CInt.ofSize msg.length = msg.length) : ∀ a ∈ ops, a.Sized := by
  cases h with
  | @read r =>
      rcases c.readNonBlocking_ops r with heq | heq | heq <;> rw [heq] <;> simp [Sized]
  | close => split <;> simp [Sized]
  | message => simp [Sized, or_imp, forall_and]
  | @sendWithTwoSysCall msg =>
      have hbody : 0 ≤ CInt.ofSize msg.length := hsize msg List.mem_cons_self ▸ Int.natCast_nonneg _
      have hheader : 0 ≤ CInt.ofSize (Connection.headerBytes msg.length).length :=
        show 0 ≤ CInt.ofSize 8 by decide
      simp [Connection.sendWithTwoSysCall, Sized, hbody, hheader]
  | _ => simp [Sized]

theorem Writes.canRun {bytes : List UInt8} (hop : op.Writes bytes) (hb : c.sendBuffer.Ok)
    (hsized : op.Sized) (hroom : c.sendBuffer.writeIndex + bytes.length ≤ CInt.max) : op.CanRun c := by
  by_cases hempty : c.sendBuffer.readableBytes = 0
  · refine .inr (.inr (.inr (.inr (.inr ⟨bytes, fun r hr => ?_⟩))))
    cases op with
    | call f =>
        cases f with
        | send msg =>
            rw [exec, if_pos ⟨hempty, hop, hr⟩]
            exact afterWrite_isSome hb hroom
        | send2 | sendWithTwoSysCall | handleClose => exact hop.elim
    | sendInternal msg =>
        rw [exec, if_pos ⟨hempty, hsized, hop, hr⟩]
        exact afterWrite_isSome hb hroom
    | _ => exact hop.elim
  · refine .inl ?_
    cases op with
    | call f =>
        cases f with
        | send msg room =>
            change Connection.sendResponse msg room = some bytes at hop
            rw [exec, if_neg hempty, hop]
            exact bufferRemaining_isSome hb hroom
        | send2 | sendWithTwoSysCall | handleClose => exact hop.elim
    | sendInternal msg =>
        obtain rfl : bytes = Connection.internalResponse msg := hop
        rw [exec, if_neg hempty]
        exact bufferRemaining_isSome hb hroom
    | _ => exact hop.elim

theorem send2_isSome (hb : c.sendBuffer.Ok) {msg : List UInt8}
    (hfits : c.sendBuffer.writeIndex + (tlvHeaderLength + msg.length : Nat) ≤ CInt.max) :
    (c.send2 msg).isSome := by
  obtain ⟨buffer, hheader, hok, -, hwrite⟩ := hb.append_spec
    (Connection.headerBytes msg.length) tlvHeaderLength (by decide) (Int.le_refl _) (by omega)
  obtain ⟨buffer', hbody, -⟩ := hok.append_spec msg msg.length (Int.natCast_nonneg _)
    (Int.le_refl _) (by omega)
  rw [Connection.send2, hheader, ofSize_of_fits hb hfits, Option.bind_eq_bind, Option.bind_some, hbody]
  rfl

/-- **No operation is ever stuck** when the send buffer has room for what it is to put out, and the stack for
what `Send` puts together there. -/
theorem canRun (hb : c.sendBuffer.Ok) (hsized : op.Sized)
    (hroom : c.sendBuffer.writeIndex + op.output.length ≤ CInt.max)
    (hstack : ∀ f, op = .call f → f.OnStack) : op.CanRun c := by
  have htau (h : (op.exec c .tau).isSome) : op.CanRun c := .inl h
  cases op with
  | call f =>
      cases f with
      | send msg room =>
          rw [output_send _ msg rfl] at hroom
          exact (writes_send hb (by rwa [length_frameBytes] at hroom) (hstack _ rfl)).canRun hb hsized hroom
      | send2 msg =>
          rw [output_send (.send2 msg) msg rfl, length_frameBytes] at hroom
          exact htau (send2_isSome hb hroom)
      | sendWithTwoSysCall | handleClose => exact htau rfl
  | sendInternal msg =>
      have hop : Op.Writes (.sendInternal msg) (Connection.internalResponse msg) := rfl
      exact hop.canRun hb hsized (by simpa [output, unsent, History.starts] using hroom)
  | handleWrite =>
      refine .inr (.inr (.inr (.inr (.inr ⟨c.sendBuffer.readable, fun r hr => ?_⟩))))
      rw [exec, if_pos ⟨rfl, hr⟩]
      unfold Connection.writeNonBlocking
      split
      · exact retrieve_isSome hb hr
      · split <;> rfl
  | readNonBlocking =>
      refine .inr (.inr (.inr (.inr (.inl ⟨c.readCount, fun r hr => ?_⟩))))
      rw [exec, if_pos ⟨rfl, hr⟩]
      rfl
  | messageReady =>
      by_cases hmessage : c.hasMessage = true
      · refine .inr (.inr (.inr (.inl fun calls => ?_)))
        rw [exec, if_pos hmessage]
        rfl
      · refine htau ?_
        rw [exec, if_neg hmessage]
        rfl
  | retrieveNone => exact htau (retrieve_isSome hb (Nat.zero_le _))
  | onClose => exact .inr (.inl rfl)
  | enableWrite => exact .inr (.inr (.inl fun _ => rfl))
  | handleMessage | messageDone | handleClose => exact htau rfl

theorem CanRun.soft (h : op.CanRun c) : ∃ label : Label, ¬label.isHard = true ∧ (op.exec c label).isSome := by
  rcases h with h | h | h | h | ⟨count, h⟩ | ⟨bytes, h⟩
  · exact ⟨.tau, by simp [Label.isHard], h⟩
  · exact ⟨.onClose, by simp [Label.isHard], h⟩
  · exact ⟨.epollCtl true, by simp [Label.isHard], h true⟩
  · exact ⟨.onMessage [], by simp [Label.isHard], h []⟩
  · exact ⟨.read count (.data []), by simp [Label.isHard], h _ (Nat.zero_le _)⟩
  · exact ⟨.write bytes (.accepted 0), by simp [Label.isHard, WriteResult.isHard], h _ (Nat.zero_le _)⟩

theorem Exec.onStack {f : Call} (h : Exec c (.call f) label c' ops) : f.OnStack := by
  cases f with
  | send msg room =>
      obtain ⟨bytes, hwrites⟩ : ∃ bytes, Writes (.call (.send msg room)) bytes := by
        cases h with
        | writeFailed hop | writeAll hop | writePart hop | queueNone hop | queueAll hop => exact ⟨_, hop⟩
      exact (Option.ite_none_right_eq_some.mp hwrites).1.2
  | send2 | sendWithTwoSysCall | handleClose => trivial

theorem CanRun.onStack {f : Call} (h : (Op.call f).CanRun c) : f.OnStack := by
  obtain ⟨label, -, hexec⟩ := h.soft
  obtain ⟨⟨c', ops⟩, hexec⟩ := Option.isSome_iff_exists.mp hexec
  exact (exec_cases hexec).onStack

/-- Only the second half of a message may wait below, and only what finishes a write stands above it. -/
theorem unsent_eq_nil {rest : List Op} (hbelow : ∀ a ∈ rest, op.Above a)
    (hop : op.isFollowup = false) : rest.flatMap unsent = [] := by
  refine List.flatMap_eq_nil_iff.mpr fun a ha => ?_
  cases a with
  | sendInternal msg => exact absurd ((hbelow _ ha).symm.trans hop) (by decide)
  | _ => rfl

theorem starts_eq_nil (hop : op.isFollowup = true) : History.starts op = [] := by
  cases op with
  | call => cases hop
  | _ => rfl

end Op

namespace Session

variable {s s' : Session} {label : Label}

theorem wire_record (h : History) (c : Connection) (op : Op) (label : Label) :
    (h.record c op label).wire = h.wire ++ label.written := by
  cases label with
  | write => rfl
  | _ => exact (List.append_nil _).symm

theorem sent_record (h : History) (c : Connection) (op : Op) (label : Label) :
    (h.record c op label).sent = h.sent ++ History.starts op := by
  cases label <;> rfl

theorem step_wire (h : s.step label = some s') : s'.history.wire = s.history.wire ++ label.written := by
  rcases step_cases h with ⟨-, events, rfl, rfl⟩ | ⟨-, f, rfl, rfl⟩ | ⟨op, rest, conn, ops, -, -, rfl⟩
  · exact (List.append_nil _).symm
  · exact (List.append_nil _).symm
  · exact wire_record s.history s.conn op label

theorem ofSize_of_short {msg : List UInt8} (h : msg.length ≤ maxTlvLength) :
    CInt.ofSize msg.length = msg.length :=
  CInt.ofSize_eq ((Int.ofNat_le.mpr h).trans (by decide))

theorem sent_subset (h : s.step label = some s') : s.history.sent ⊆ s'.history.sent := by
  rcases step_cases h with ⟨-, events, -, rfl⟩ | ⟨-, f, -, rfl⟩ | ⟨op, rest, conn, ops, -, -, rfl⟩
  · exact List.Subset.refl _
  · exact List.Subset.refl _
  · rw [sent_record]
    exact List.subset_append_left _ _

theorem buffer_ok_of_reachable {ok : Session → Label → Prop}
    (hs : Machine.Reachable Session.step ok Fresh s) : s.conn.sendBuffer.Ok := by
  refine hs.invariant (fun s hs => hs.sendBuffer ▸ Buffer.ok_new) fun s label s' _ hinv _ h => ?_
  rcases step_cases h with ⟨-, events, -, rfl⟩ | ⟨-, f, -, rfl⟩ | ⟨op, rest, conn, ops, -, hexec, rfl⟩
  · exact hinv
  · exact hinv
  · exact (Op.exec_cases hexec).buffer_ok hinv

/-- Nothing is cut off: only `WriteNonBlocking`, which keeps the send buffer, may fail for good. -/
def Keeps (s : Session) (label : Label) : Prop :=
  label.isHard = true → s.stack.head? = some .handleWrite

theorem keeps_of_soft (hsoft : label.isHard = false) : s.Keeps label := fun hhard =>
  absurd (hhard.symm.trans hsoft) (by decide)

/-- Every byte sent is on the wire, in the buffer or waiting on the stack, in this order. -/
structure Sending (s : Session) : Prop where
  ok : s.conn.sendBuffer.Ok
  stream : s.history.wire ++ s.conn.sendBuffer.readable ++ s.stack.flatMap Op.unsent
    = s.history.sent.flatMap frameBytes

theorem Fresh.sending (hs : s.Fresh) : s.Sending := by
  refine ⟨hs.sendBuffer ▸ Buffer.ok_new, ?_⟩
  rw [hs.stack, hs.history, hs.sendBuffer]
  rfl

theorem unsent_handleEvent (s : Session) (events : EpollEvents) :
    (s.handleEvent events).stack.flatMap Op.unsent = [] :=
  List.flatMap_eq_nil_iff.mpr fun op hop => by rcases mem_handleEvent hop with rfl | rfl <;> rfl

theorem sized_handleEvent (s : Session) (events : EpollEvents) :
    ∀ op ∈ (s.handleEvent events).stack, op.Sized := by
  intro op hop
  rcases mem_handleEvent hop with rfl | rfl <;> trivial

theorem Sending.step (hs : s.Sending) (hstacked : s.Stacked) (hkeeps : s.Keeps label)
    (hsize : ∀ msg ∈ s'.history.sent, CInt.ofSize msg.length = msg.length)
    (h : s.step label = some s') : s'.Sending := by
  have hstream := hs.stream
  rcases step_cases h with ⟨hstack, events, -, rfl⟩ | ⟨hstack, f, -, rfl⟩ |
    ⟨op, rest, conn, ops, hstack, hexec, rfl⟩
  · rw [hstack] at hstream
    exact ⟨hs.ok, by rw [unsent_handleEvent]; exact hstream⟩
  · rw [hstack] at hstream
    exact ⟨hs.ok, hstream⟩
  · have hexec := Op.exec_cases hexec
    rw [sent_record] at hsize
    rw [Keeps, hstack] at hkeeps
    obtain ⟨hmoved, -⟩ := hexec.emits hs.ok fun hhard => Option.some.inj (hkeeps hhard)
    rw [Op.emitted_eq_output fun msg hmsg => hsize msg (List.mem_append_right _ hmsg)] at hmoved
    rw [Stacked, hstack, List.pairwise_cons] at hstacked
    -- a message begins only when nothing of an earlier one is waiting
    have hswap : (History.starts op).flatMap frameBytes ++ rest.flatMap Op.unsent
        = rest.flatMap Op.unsent ++ (History.starts op).flatMap frameBytes := by
      by_cases hop : op.isFollowup = true
      · rw [Op.starts_eq_nil hop]
        simp
      · rw [Op.unsent_eq_nil hstacked.1 (Bool.eq_false_iff.mpr hop)]
        simp
    rw [hstack, List.flatMap_cons] at hstream
    refine ⟨hexec.buffer_ok hs.ok, ?_⟩
    dsimp only
    calc (s.history.record s.conn op label).wire ++ conn.sendBuffer.readable
          ++ (ops ++ rest).flatMap Op.unsent
        = s.history.wire ++ (label.written ++ conn.sendBuffer.readable ++ ops.flatMap Op.unsent)
            ++ rest.flatMap Op.unsent := by
          rw [wire_record, List.flatMap_append]
          simp only [List.append_assoc]
      _ = s.history.wire ++ s.conn.sendBuffer.readable ++ op.unsent
            ++ ((History.starts op).flatMap frameBytes ++ rest.flatMap Op.unsent) := by
          rw [hmoved, Op.output]
          simp only [List.append_assoc]
      _ = (s.history.wire ++ s.conn.sendBuffer.readable ++ (op.unsent ++ rest.flatMap Op.unsent))
            ++ (History.starts op).flatMap frameBytes := by
          rw [hswap]
          simp only [List.append_assoc]
      _ = (s.history.record s.conn op label).sent.flatMap frameBytes := by
          rw [hstream, sent_record, List.flatMap_append]

theorem sending_of_reachable {ok : Session → Label → Prop}
    (hok : ∀ s label, ok s label → s.Keeps label) (hs : Machine.Reachable Session.step ok Fresh s)
    (hsize : ∀ msg ∈ s.history.sent, CInt.ofSize msg.length = msg.length) : s.Sending := by
  induction hs with
  | init h => exact h.sending
  | step hs ha h ih =>
      have hbefore := ih fun msg hmsg => hsize msg (sent_subset h hmsg)
      exact hbefore.step (stacked_of_reachable hs) (hok _ _ ha) hsize h

/-- The next call, if one is due, fits. -/
def Fits (s : Session) : Prop :=
  match s.stack with
  | .call f :: _ => f.Fits s.conn.sendBuffer
  | _ => True

instance (s : Session) : Decidable s.Fits := by
  unfold Fits
  split <;> infer_instance

theorem Fits.call (hs : s.Fits) {f : Call} {rest : List Op} (hstack : s.stack = .call f :: rest) :
    f.Fits s.conn.sendBuffer := by
  rw [Fits, hstack] at hs
  exact hs

/-- The runs of sending: no `write` fails for good, and every message fits when it is sent. -/
def Sends (s : Session) (label : Label) : Prop := label.isHard = false ∧ s.Fits

instance (s : Session) (label : Label) : Decidable (Sends s label) := by
  unfold Sends
  infer_instance

/-- What is waiting on the stack has room in the send buffer, and no length was cut off. -/
structure Roomy (s : Session) : Prop where
  size : ∀ msg ∈ s.history.sent, CInt.ofSize msg.length = msg.length
  room : s.conn.sendBuffer.writeIndex + (s.stack.flatMap Op.unsent).length ≤ CInt.max
  sized : ∀ op ∈ s.stack, op.Sized

theorem Fresh.roomy (hs : s.Fresh) : s.Roomy := by
  constructor
  · rw [hs.history]
    exact fun msg h => absurd h List.not_mem_nil
  · rw [hs.stack, hs.sendBuffer]
    decide
  · rw [hs.stack]
    exact fun op h => absurd h List.not_mem_nil

theorem Roomy.output_le (hs : s.Roomy) {op : Op} {rest : List Op} (hbelow : ∀ a ∈ rest, op.Above a)
    (hfits : s.Fits) (hstack : s.stack = op :: rest) : s.conn.sendBuffer.writeIndex
      + (op.output.length + (rest.flatMap Op.unsent).length : Nat) ≤ CInt.max := by
  have hroom := hs.room
  rw [hstack, List.flatMap_cons] at hroom
  cases op with
  | call f =>
      rw [Op.unsent_eq_nil hbelow rfl] at hroom ⊢
      have hfit := hfits.call hstack
      cases f with
      | handleClose => simpa [Op.output, Op.unsent, History.starts] using hroom
      | _ => simpa [Op.output, Op.unsent, History.starts, Call.Fits] using hfit
  | _ => simpa [Op.output, History.starts] using hroom

theorem Roomy.step (hs : s.Roomy) (hsending : s.Sending) (hstacked : s.Stacked) (hok : Sends s label)
    (h : s.step label = some s') : s'.Roomy := by
  have hroom := hs.room
  rcases step_cases h with ⟨hstack, events, -, rfl⟩ | ⟨hstack, f, -, rfl⟩ |
    ⟨op, rest, conn, ops, hstack, hexec, rfl⟩
  · rw [hstack] at hroom
    exact ⟨hs.size, by rw [unsent_handleEvent]; exact hroom, sized_handleEvent s events⟩
  · rw [hstack] at hroom
    exact ⟨hs.size, hroom, by simp [Op.Sized]⟩
  · rw [Stacked, hstack, List.pairwise_cons] at hstacked
    have hsize : ∀ msg ∈ History.starts op, CInt.ofSize msg.length = msg.length := by
      cases op with
      | call f =>
          have hfit := hok.2.call hstack
          cases f with
          | handleClose => exact fun msg h => absurd h List.not_mem_nil
          | _ =>
              intro msg hmsg
              obtain rfl := List.mem_singleton.mp hmsg
              exact Op.ofSize_of_fits hsending.ok hfit
      | _ => exact fun msg h => absurd h List.not_mem_nil
    obtain ⟨-, hgrown⟩ := (Op.exec_cases hexec).emits hsending.ok
      fun hhard => absurd (hhard.symm.trans hok.1) (by decide)
    rw [Op.emitted_eq_output hsize] at hgrown
    have hbound := hs.output_le hstacked.1 hok.2 hstack
    refine ⟨?_, ?_, ?_⟩
    · rw [sent_record]
      exact List.forall_mem_append.mpr ⟨hs.size, hsize⟩
    · dsimp only
      rw [List.flatMap_append, List.length_append]
      omega
    · have hsized := hs.sized
      rw [hstack, List.forall_mem_cons] at hsized
      exact List.forall_mem_append.mpr ⟨(Op.exec_cases hexec).sized hsize, hsized.2⟩

theorem roomy_of_reachable (hs : Machine.Reachable Session.step Sends Fresh s) : s.Roomy :=
  hs.invariant (fun _ hs => hs.roomy) fun _ _ _ hs hinv hok h =>
    hinv.step (sending_of_reachable (fun _ _ h => keeps_of_soft h.1) hs hinv.size) (stacked_of_reachable hs) hok h

/-- **The output is exact, whichever way messages are sent.** When no call is running, the bytes that the
kernel took and the bytes in the send buffer are the frames of all messages sent, in the order of the
calls. So runs that send the same messages produce the same stream. The next call of a run is defined exactly
if it is not a `Send` whose frame the stack cannot hold. -/
theorem output_exact (hs : Machine.Reachable Session.step Sends Fresh s) :
    (s.stack = [] → s.history.wire ++ s.conn.sendBuffer.readable = s.history.sent.flatMap frameBytes) ∧
      (∀ t, Machine.Reachable Session.step Sends Fresh t → s.stack = [] → t.stack = [] →
        t.history.sent = s.history.sent →
          t.history.wire ++ t.conn.sendBuffer.readable = s.history.wire ++ s.conn.sendBuffer.readable) ∧
      (s.Fits → ((∀ op rest, s.stack = op :: rest → op.CanRun s.conn) ↔
        ∀ f rest, s.stack = .call f :: rest → f.OnStack)) := by
  have hsending {t : Session} (ht : Machine.Reachable Session.step Sends Fresh t) : t.Sending :=
    sending_of_reachable (fun _ _ h => keeps_of_soft h.1) ht (roomy_of_reachable ht).size
  have hexact {t : Session} (ht : Machine.Reachable Session.step Sends Fresh t) (hidle : t.stack = []) :
      t.history.wire ++ t.conn.sendBuffer.readable = t.history.sent.flatMap frameBytes := by
    have hstream := (hsending ht).stream
    rwa [hidle, List.flatMap_nil, List.append_nil] at hstream
  refine ⟨hexact hs, fun t ht hidle hidle' hsent => ?_, fun hfits => ⟨fun hdefined f rest hstack => ?_,
    fun honStack op rest hstack => ?_⟩⟩
  · rw [hexact ht hidle', hexact hs hidle, hsent]
  · exact (hdefined _ _ hstack).onStack
  · have hstacked := stacked_of_reachable hs
    rw [Stacked, hstack, List.pairwise_cons] at hstacked
    have hroomy := roomy_of_reachable hs
    have hroom := hroomy.output_le hstacked.1 hfits hstack
    refine Op.canRun (hsending hs).ok (hroomy.sized op (by rw [hstack]; exact List.mem_cons_self))
      (by omega) ?_
    rintro f rfl
    exact honStack f rest hstack

set_option maxRecDepth 10000 in
/-- A message whose reply is taken in part, and another one behind it. -/
theorem output_exact_part : ∃ s : Session, Machine.Reachable Session.step Sends Fresh s ∧
    s.history.sent = [[7], []] ∧ s.history.wire = [0, 0, 0, 0, 0, 0, 0, 1, 7, 0, 0] ∧
      s.history.wire ++ s.conn.sendBuffer.readable = frameBytes [7] ++ frameBytes [] := by
  have hfresh := fresh_connectionEstablished 0 5 .invalid false true true
  obtain ⟨s, hrun, hidle, hsent, hwire⟩ : ∃ s,
      Machine.run step Sends (new (((Connection.new 0 5 .invalid false
          true).setCloseCallback.setMessageCallback).connectionEstablished true))
        [.call (.send [7] 8388608), .write [0, 0, 0, 0, 0, 0, 0, 1, 7] (.accepted 3), .epollCtl true,
          .call (.sendWithTwoSysCall []), .tau, .tau, .epollCtl true, .tau,
          .event { EpollEvents.none with epollout := true },
          .write [0, 0, 0, 0, 1, 7, 0, 0, 0, 0, 0, 0, 0, 0] (.accepted 8)] = some s ∧
      s.stack = [] ∧ s.history.sent = [[7], []] ∧
      s.history.wire = [0, 0, 0, 0, 0, 0, 0, 1, 7, 0, 0] := ⟨_, rfl, rfl, rfl, rfl⟩
  have hs : Machine.Reachable Session.step Sends Fresh s := .run (.init hfresh) hrun
  refine ⟨s, hs, hsent, hwire, ?_⟩
  have hexact := (output_exact hs).1 hidle
  rwa [hsent] at hexact

/-- A `Send` of nine million bytes on a stack of eight mebibytes. -/
theorem stack_overflow : ¬∀ s, Machine.Reachable Session.step Sends Fresh s → s.Fits →
    ∀ op rest, s.stack = op :: rest → op.CanRun s.conn := by
  intro hdefined
  obtain ⟨msg, hlength⟩ : ∃ msg : List UInt8, msg.length = 9000000 :=
    ⟨.replicate 9000000 7, List.length_replicate⟩
  have hfresh := fresh_connectionEstablished 0 5 .invalid false true true
  have hs : Machine.Reachable Session.step Sends Fresh
      { new (((Connection.new 0 5 .invalid false
          true).setCloseCallback.setMessageCallback).connectionEstablished true) with
        stack := [.call (.send msg 8388608)] } :=
    .step (a := .call (.send msg 8388608)) (.init hfresh) ⟨rfl, trivial⟩ rfl
  have hfits : (Call.send msg 8388608).Fits .new := by
    rw [Call.Fits, hlength]
    decide
  have hroom := (hdefined _ hs hfits _ _ rfl).onStack
  rw [Call.OnStack, hlength] at hroom
  exact absurd hroom (by decide)

end Session

end EpollServer
