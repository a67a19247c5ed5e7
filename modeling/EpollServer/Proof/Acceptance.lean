import EpollServer.Proof.Calls
import EpollServer.Proof.RoundTrip

/-!
# What the reader accepts of what is sent

The limit on the length of a body is known to the reader only. The three ways to send put any length into
the header, as far as its 32 bits go, and send the message behind it; where the conversions to `int` change
the length, the call is undefined or the body is cut. So a call is sure to produce a frame that the reader
accepts exactly if the message is within the reader's limit, and the send buffer and, for `Send`, the stack have
room for it.
-/

namespace EpollServer

open Framing

namespace Op

variable {c c' : Connection} {op : Op} {label : Label} {ops : List Op}

/-- The operations of a call. -/
def OfCall (op : Op) : Prop := op.isFollowup = true ∨ ∃ f, op = .call f

theorem Exec.of_hard (h : Exec c op label c' ops) (hhard : label.isHard = true) (hop : op ≠ .handleWrite) :
    c' = c ∧ ops = [.handleClose] := by
  cases h with
  | writeFailed => exact ⟨rfl, rfl⟩
  | writeAll _ _ hsoft | writePart _ _ hsoft => exact absurd (hsoft.symm.trans hhard) Bool.false_ne_true
  | flush | flushRetry | flushFailed => exact absurd rfl hop
  | _ => cases hhard

theorem Exec.spends (h : Exec c op label c' ops) (hb : c.sendBuffer.Ok) :
    c'.sendBuffer.writeIndex + (ops.flatMap unsent).length
      ≤ c.sendBuffer.writeIndex + op.emitted.length := by
  by_cases hkeeps : label.isHard = true → op = .handleWrite
  · exact (h.emits hb hkeeps).2
  · obtain ⟨hhard, hop⟩ := Classical.not_imp.mp hkeeps
    obtain ⟨rfl, rfl⟩ := h.of_hard hhard hop
    exact Int.add_le_add_left (Int.natCast_nonneg _) _

/-- On a buffer that is not empty a call does not write; it appends. -/
theorem Exec.appends (h : Exec c op label c' ops) (hb : c.sendBuffer.Ok) (hop : op.OfCall)
    (hbusy : c.sendBuffer.readable ≠ []) : c'.sendBuffer.readable ≠ [] ∧ label.isWrite = false ∧
      c'.sendBuffer.writeIndex + (ops.flatMap unsent).length
        = c.sendBuffer.writeIndex + op.emitted.length := by
  cases h with
  | writeFailed _ hempty | writeAll _ hempty | writePart _ hempty =>
      exact absurd (hb.readable_eq_nil_iff.mpr hempty) hbusy
  | queueNone hwrites =>
      rw [← hwrites.bytes_eq]
      exact ⟨hbusy, rfl, rfl⟩
  | queueAll hwrites _ happend =>
      obtain ⟨-, hread, hwrite⟩ := hb.of_append happend
      refine ⟨by simp [hread, hbusy], rfl, ?_⟩
      rw [hwrite, ← hwrites.bytes_eq]
      simp [unsent]
  | @send2 msg _ _ hheader hbody =>
      obtain ⟨hok, hread, hwrite⟩ := hb.of_append hheader
      obtain ⟨-, hread', hwrite'⟩ := hok.of_append hbody
      obtain ⟨h0, hlen, -⟩ := Buffer.range_of_append hbody
      refine ⟨by simp [hread', hread, hbusy], rfl, ?_⟩
      rw [hwrite', hwrite, emitted_send _ msg rfl]
      simp [unsent, Connection.internalResponse, Connection.headerBytes]
      omega
  | @sendWithTwoSysCall msg =>
      refine ⟨hbusy, rfl, ?_⟩
      rw [unsent_sendWithTwoSysCall]
  | close => exact ⟨hbusy, rfl, by split <;> simp [unsent, emitted, History.starts]⟩
  | callClose | closed | onClose | enableWrite => exact ⟨hbusy, rfl, by simp [unsent, emitted, History.starts]⟩
  | _ => simp [OfCall, isFollowup] at hop

/-- How many steps an operation of a call may take at most. -/
def weight : Op → Nat
  | .call _ => 7
  | .sendInternal _ => 3
  | .handleClose => 2
  | _ => 1

theorem Leaves.weight_lt (h : op.Leaves ops) (hop : op.OfCall) : (ops.map weight).sum < op.weight := by
  cases op with
  | call f =>
      rcases h with rfl | rfl | rfl | ⟨msg, rfl⟩ <;> simp [Connection.sendWithTwoSysCall, weight]
  | sendInternal msg => rcases h with rfl | rfl | rfl <;> simp [weight]
  | handleClose => rcases h with rfl | rfl <;> simp [weight]
  | enableWrite | onClose =>
      obtain rfl : ops = [] := h
      simp [weight]
  | _ =>
      rcases hop with hop | ⟨f, hop⟩
      · cases hop
      · cases hop

end Op

namespace Session

variable {s t t' : Session} {f : Call} {label : Label}

/-- A call of `f` that began in `s`. -/
structure Underway (s : Session) (f : Call) (t : Session) : Prop where
  ok : t.conn.sendBuffer.Ok
  stack : t.stack = [.call f] ∨ ∀ op ∈ t.stack, op.isFollowup = true
  room : t.conn.sendBuffer.writeIndex + (t.stack.flatMap Op.emitted).length
    ≤ s.conn.sendBuffer.writeIndex + (Op.call f).emitted.length
  busy : s.conn.sendBuffer.readable ≠ [] → t.conn.sendBuffer.readable ≠ [] ∧
    t.conn.sendBuffer.writeIndex + (t.stack.flatMap Op.emitted).length
      = s.conn.sendBuffer.writeIndex + (Op.call f).emitted.length
  sized : (∀ msg ∈ History.starts (.call f), CInt.ofSize msg.length = msg.length) →
    ∀ op ∈ t.stack, op.Sized

theorem underway_calling (hb : s.conn.sendBuffer.Ok) : s.Underway f (s.calling f) where
  ok := hb
  stack := .inl rfl
  room := by simp [calling]
  busy h := ⟨h, by simp [calling]⟩
  sized _ := by simp [calling, Op.Sized]

theorem Underway.ofCall (ht : s.Underway f t) {op : Op} {rest : List Op} (hstack : t.stack = op :: rest) :
    op.OfCall := by
  rcases ht.stack with h | h
  · exact .inr ⟨f, (List.cons.inj (hstack.symm.trans h)).1⟩
  · exact .inl (h op (by rw [hstack]; exact List.mem_cons_self))

/-- What the first step of a call leaves, and what that leaves, starts no message. -/
theorem Underway.followups (ht : s.Underway f t) {op : Op} {rest ops : List Op} (hstack : t.stack = op :: rest)
    (hleaves : op.Leaves ops) : ∀ a ∈ ops ++ rest, a.isFollowup = true := by
  rcases ht.stack with h | h
  · obtain ⟨rfl, rfl⟩ := List.cons.inj (hstack.symm.trans h)
    rw [List.append_nil]
    rcases hleaves with rfl | rfl | rfl | ⟨msg, rfl⟩ <;>
      simp [Connection.sendWithTwoSysCall, Op.isFollowup]
  · rw [hstack, List.forall_mem_cons] at h
    exact List.forall_mem_append.mpr ⟨fun a ha => hleaves.isFollowup h.1 ha, h.2⟩

theorem emitted_of_followups {ops : List Op} (hops : ∀ a ∈ ops, a.isFollowup = true) :
    ops.flatMap Op.emitted = ops.flatMap Op.unsent :=
  List.flatMap_congr fun a ha => by rw [Op.emitted, Op.starts_eq_nil (hops a ha)]; simp

theorem Underway.step (ht : s.Underway f t) (hbusy : t.stack ≠ []) (h : t.step label = some t') :
    s.Underway f t' ∧ (¬label.isHard = true →
      t'.stream ++ t'.stack.flatMap Op.emitted = t.stream ++ t.stack.flatMap Op.emitted) := by
  rcases step_cases h with ⟨hidle, -⟩ | ⟨hidle, -⟩ | ⟨op, rest, conn, ops, hstack, hexec, rfl⟩
  · exact absurd hidle hbusy
  · exact absurd hidle hbusy
  · have hexec := Op.exec_cases hexec
    have hfollowups := ht.followups hstack hexec.leaves
    have hops : ops.flatMap Op.emitted = ops.flatMap Op.unsent :=
      emitted_of_followups fun a ha => hfollowups a (List.mem_append_left rest ha)
    have hroom := ht.room
    have hspends := hexec.spends ht.ok
    rw [hstack, List.flatMap_cons, List.length_append] at hroom
    refine ⟨⟨hexec.buffer_ok ht.ok, .inr hfollowups, ?_, fun hs => ?_, fun hsize => ?_⟩, fun hsoft => ?_⟩
    · dsimp only
      rw [List.flatMap_append, List.length_append, hops]
      omega
    · obtain ⟨hrest, hsame⟩ := ht.busy hs
      obtain ⟨hrest', -, hadded⟩ := hexec.appends ht.ok (ht.ofCall hstack) hrest
      rw [hstack, List.flatMap_cons, List.length_append] at hsame
      refine ⟨hrest', ?_⟩
      dsimp only
      rw [List.flatMap_append, List.length_append, hops]
      omega
    · have hsized := ht.sized hsize
      rw [hstack, List.forall_mem_cons] at hsized
      refine List.forall_mem_append.mpr ⟨hexec.sized fun msg hmsg => ?_, hsized.2⟩
      rcases ht.stack with h | h
      · obtain ⟨rfl, -⟩ := List.cons.inj (hstack.symm.trans h)
        exact hsize msg hmsg
      · rw [Op.starts_eq_nil (h op (by rw [hstack]; exact List.mem_cons_self))] at hmsg
        cases hmsg
    · obtain ⟨hmoved, -⟩ := hexec.emits ht.ok fun hhard => absurd hhard hsoft
      dsimp only [stream]
      rw [wire_record, hstack, List.flatMap_append, List.flatMap_cons, hops]
      simp only [List.append_assoc] at hmoved ⊢
      rw [← List.append_assoc conn.sendBuffer.readable, ← List.append_assoc label.written, hmoved]
      simp only [List.append_assoc]

theorem Underway.run {t₀ : Session} {labels : List Label} (ht : s.Underway f t₀)
    (hrun : Machine.run Session.step Busy t₀ labels = some t) : s.Underway f t ∧
      ((∀ label ∈ labels, ¬label.isHard = true) →
        t.stream ++ t.stack.flatMap Op.emitted = t₀.stream ++ t₀.stack.flatMap Op.emitted) := by
  induction labels generalizing t₀ with
  | nil =>
      obtain rfl : t₀ = t := by simpa [Machine.run] using hrun
      exact ⟨ht, fun _ => rfl⟩
  | cons label labels ih =>
      obtain ⟨hbusy, t₁, hstep, hrun⟩ := Machine.run_cons.mp hrun
      obtain ⟨ht₁, hsame₁⟩ := ht.step hbusy hstep
      obtain ⟨ht', hsame⟩ := ih ht₁ hrun
      refine ⟨ht', fun hsoft => ?_⟩
      obtain ⟨hlabel, hlabels⟩ := List.forall_mem_cons.mp hsoft
      exact (hsame hlabels).trans (hsame₁ hlabel)

/-- The bytes are a frame that the reader accepts, and its body is the message. -/
def Delivers (bytes msg : List UInt8) : Prop :=
  ∀ r, Machine.Reachable Session.step (fun _ label => label.legal) Fresh r → r.stack = [] →
    r.history.consumed = bytes → r.history.seen = [msg] ∧ r.conn.reader.Initial

theorem delivers_frameBytes {msg : List UInt8} (hmsg : msg.length ≤ maxTlvLength) :
    Delivers (frameBytes msg) msg := by
  intro r hr hidle hconsumed
  obtain ⟨hat, -, hseen⟩ := idle_of_reachable hr hidle
  have hsplit : split tlv r.history.consumed = ([stringFrame msg hmsg], []) := by
    refine split_eq ?_ fun h => absurd h.1 (by decide)
    rw [hconsumed, encode_cons, encode_nil, symbols_stringFrame, List.append_nil, List.append_nil]
  refine ⟨?_, hat.initial_iff.mpr (by rw [hsplit])⟩
  rw [hseen, bodies, hsplit]
  rfl

/-- From `s` to `t` nothing was put out, or a header that announces the message, within the reader's limit,
and the message. -/
def Frames (s : Session) (msg : List UInt8) (t : Session) : Prop :=
  t.stream = s.stream ∨ ∃ header : TLVHeader, header.length.toNat = msg.length ∧
    header.length.toNat ≤ maxTlvLength ∧ t.stream = s.stream ++ (header.wire ++ msg) ∧
      Delivers (header.wire ++ msg) msg

/-- Whatever the results of the system calls are that `admits` allows, the call is defined, and when it
returns it has put out an acceptable frame or nothing. -/
def Acceptable (s : Session) (admits : Label → Prop) (f : Call) (msg : List UInt8) : Prop :=
  ∀ labels t, (∀ label ∈ labels, admits label) →
    Machine.run Session.step Busy (s.calling f) labels = some t →
      (∀ op rest, t.stack = op :: rest → op.CanRun t.conn) ∧ (t.stack = [] → s.Frames msg t)

theorem Acceptable.mono {admits admits' : Label → Prop} {msg : List UInt8}
    (hs : s.Acceptable admits f msg) (hadmits : ∀ label, admits' label → admits label) :
    s.Acceptable admits' f msg := fun labels t hlabels hrun =>
  hs labels t (fun label hlabel => hadmits label (hlabels label hlabel)) hrun

/-- A call that is defined whatever happens can be run to its end without another hard error. -/
theorem Acceptable.returns {admits : Label → Prop} {msg : List UInt8} (hs : s.Acceptable admits f msg)
    (hsoft : ∀ label : Label, ¬label.isHard = true → admits label) {labels : List Label}
    (hlabels : ∀ label ∈ labels, admits label)
    (hrun : Machine.run Session.step Busy (s.calling f) labels = some t) (ht : s.Underway f t) :
    ∃ t', s.Frames msg t' ∧ s.Underway f t' ∧ t'.stack = [] ∧
      t'.stream = t.stream ++ t.stack.flatMap Op.emitted := by
  induction hn : (t.stack.map Op.weight).sum using Nat.strong_induction_on generalizing t labels with
  | _ n ih =>
      obtain ⟨hdefined, hframes⟩ := hs labels t hlabels hrun
      cases hstack : t.stack with
      | nil => exact ⟨t, hframes hstack, ht, hstack, by simp⟩
      | cons op rest =>
          obtain ⟨label, hlabel, hexec⟩ := (hdefined op rest hstack).soft
          obtain ⟨⟨conn, ops⟩, hexec⟩ := Option.isSome_iff_exists.mp hexec
          have hbusy : t.stack ≠ [] := by simp [hstack]
          have hstep := step_of_exec hstack hexec
          obtain ⟨ht', hsame⟩ := ht.step hbusy hstep
          have hweight := (Op.exec_cases hexec).leaves.weight_lt (ht.ofCall hstack)
          rw [hstack, List.map_cons, List.sum_cons] at hn
          obtain ⟨t', hframes', hunderway, hdone, hstream⟩ := ih _ (by simp; omega)
            (List.forall_mem_append.mpr ⟨hlabels, by simpa using hsoft label hlabel⟩)
            (Machine.run_concat hrun hbusy hstep) ht' rfl
          exact ⟨t', hframes', hunderway, hdone, hstream.trans ((hsame hlabel).trans (by rw [hstack]))⟩

theorem Underway.canRun (ht : s.Underway f t)
    (hsize : ∀ msg ∈ History.starts (.call f), CInt.ofSize msg.length = msg.length)
    (hroom : s.conn.sendBuffer.writeIndex + (Op.call f).emitted.length ≤ CInt.max) (harray : f.OnStack)
    {op : Op} {rest : List Op} (hstack : t.stack = op :: rest) : op.CanRun t.conn := by
  have hstarts : ∀ msg ∈ History.starts op, CInt.ofSize msg.length = msg.length := by
    rcases ht.stack with h | h
    · obtain ⟨rfl, -⟩ := List.cons.inj (hstack.symm.trans h)
      exact hsize
    · rw [Op.starts_eq_nil (h op (by rw [hstack]; exact List.mem_cons_self))]
      exact fun msg hmsg => absurd hmsg List.not_mem_nil
  have hbound := ht.room
  rw [hstack, List.flatMap_cons, List.length_append, Op.emitted_eq_output hstarts] at hbound
  refine Op.canRun ht.ok (ht.sized hsize op (by rw [hstack]; exact List.mem_cons_self)) (by omega) ?_
  rintro f' rfl
  rcases ht.stack with h | h
  · obtain ⟨heq, -⟩ := List.cons.inj (hstack.symm.trans h)
    exact Op.call.inj heq ▸ harray
  · exact absurd (h _ (by rw [hstack]; exact List.mem_cons_self)) (by simp [Op.isFollowup])

theorem ofSize_of_acceptable {msg : List UInt8} (hf : History.starts (.call f) = [msg])
    (hmsg : msg.length ≤ maxTlvLength) :
    ∀ msg ∈ History.starts (.call f), CInt.ofSize msg.length = msg.length := by
  rw [hf, List.forall_mem_singleton]
  exact ofSize_of_short hmsg

theorem emitted_of_short {msg : List UInt8} (hf : History.starts (.call f) = [msg])
    (hmsg : msg.length ≤ maxTlvLength) : (Op.call f).emitted = frameBytes msg := by
  rw [Op.emitted_eq_output (ofSize_of_acceptable hf hmsg), Op.output_send f msg hf]

theorem frames_of_frameBytes {msg : List UInt8} (hmsg : msg.length ≤ maxTlvLength)
    (hstream : t.stream = s.stream ++ frameBytes msg) : s.Frames msg t := by
  refine .inr ⟨stringHeader msg.length, ?_, ?_, hstream, delivers_frameBytes hmsg⟩
  · exact ((stringFrame msg hmsg).length_body.trans (bodyLength_wire _)).symm
  · exact ((bodyLength_wire _).symm.trans_le (stringFrame msg hmsg).length_body_le)

theorem room_of_fits {msg : List UInt8} (hf : History.starts (.call f) = [msg])
    (hmsg : msg.length ≤ maxTlvLength) (hfits : f.Fits s.conn.sendBuffer) :
    s.conn.sendBuffer.writeIndex + (Op.call f).emitted.length ≤ CInt.max := by
  rw [emitted_of_short hf hmsg, length_frameBytes]
  cases f with
  | handleClose => cases hf
  | _ =>
      obtain ⟨rfl, -⟩ := List.cons.inj hf
      exact hfits

theorem Acceptable.short {msg : List UInt8} (hb : s.conn.sendBuffer.Ok)
    (hf : History.starts (.call f) = [msg]) (hs : s.Acceptable (fun label => ¬label.isHard = true) f msg) :
    msg.length ≤ maxTlvLength ∧ f.Fits s.conn.sendBuffer ∧ f.OnStack := by
  have harray : f.OnStack :=
    ((hs [] _ (fun _ h => absurd h List.not_mem_nil) rfl).1 (.call f) [] rfl).onStack
  obtain ⟨t, hframes, ht, hdone, hstream⟩ :=
    hs.returns (fun _ h => h) (fun _ h => absurd h List.not_mem_nil)
      (rfl : Machine.run Session.step Busy (s.calling f) [] = some _) (underway_calling hb)
  have hstream : t.stream = s.stream ++ (Op.call f).emitted :=
    hstream.trans (by simp [calling, Session.stream])
  have hmsg : msg.length ≤ maxTlvLength := by
    rcases hframes with hsame | ⟨header, hlength, hle, -⟩
    · have hnil := congrArg List.length (hstream.symm.trans hsame)
      rw [Op.emitted_send f msg hf] at hnil
      simp [Connection.headerBytes, tlvHeaderLength] at hnil
    · exact hlength ▸ hle
  refine ⟨hmsg, ?_, harray⟩
  have hfits : s.conn.sendBuffer.writeIndex + (tlvHeaderLength + msg.length : Nat) ≤ CInt.max := by
    by_cases hempty : s.conn.sendBuffer.readable = []
    · have hzero := hb.reset (by
        have h := hb.readable_eq_nil_iff.mp hempty
        rw [Buffer.readableBytes] at h
        omega)
      simp only [maxTlvLength] at hmsg
      simp only [hzero, tlvHeaderLength, CInt.max]
      omega
    · obtain ⟨-, hsame⟩ := ht.busy hempty
      rw [hdone, List.flatMap_nil, emitted_of_short hf hmsg, length_frameBytes] at hsame
      have hle := ht.ok.writeIndex_le
      have hmax := ht.ok.length_le
      simp only [List.length_nil] at hsame
      omega
  cases f with
  | handleClose => trivial
  | _ =>
      obtain ⟨rfl, -⟩ := List.cons.inj hf
      exact hfits

theorem acceptable_of_short {msg : List UInt8} (hb : s.conn.sendBuffer.Ok)
    (hf : History.starts (.call f) = [msg]) (hmsg : msg.length ≤ maxTlvLength)
    (hfits : f.Fits s.conn.sendBuffer) (harray : f.OnStack) :
    s.Acceptable (fun label => ¬label.isHard = true) f msg := by
  intro labels t hsoft hrun
  obtain ⟨ht, hsame⟩ := (underway_calling hb).run hrun
  refine ⟨fun op rest => ht.canRun (ofSize_of_acceptable hf hmsg) (room_of_fits hf hmsg hfits) harray,
    fun hdone => frames_of_frameBytes hmsg ?_⟩
  have hstream := hsame hsoft
  rw [hdone, List.flatMap_nil, List.append_nil] at hstream
  rw [hstream, ← emitted_of_short hf hmsg]
  simp [calling, stream]

theorem run_torn (msg : List UInt8) (hb : s.conn.sendBuffer.Ok) (hempty : s.conn.sendBuffer.readable = []) :
    ∃ t, Machine.run step Busy (s.calling (.sendWithTwoSysCall msg))
        [.tau, .write (Connection.headerBytes msg.length) (.error (.other 104))] = some t ∧
      t.stack = [.handleClose, .sendInternal msg] ∧ t.stream = s.stream := by
  have hexec : (Op.sendInternal (Connection.headerBytes msg.length)).exec s.conn
      (.write (Connection.headerBytes msg.length) (.error (.other 104))) = some (s.conn, [.handleClose]) := by
    have hsized : 0 ≤ CInt.ofSize (Connection.headerBytes msg.length).length :=
      show 0 ≤ CInt.ofSize 8 by decide
    rw [Op.exec, if_pos ⟨hb.readable_eq_nil_iff.mp hempty, hsized,
      (Op.internalResponse_headerBytes msg.length).symm, Nat.zero_le _⟩]
    rfl
  refine ⟨{ s.calling (.sendWithTwoSysCall msg) with
      stack := [.handleClose, .sendInternal msg]
      history := ((s.history.record s.conn (.call (.sendWithTwoSysCall msg)) .tau).record s.conn
        (.sendInternal (Connection.headerBytes msg.length))
          (.write (Connection.headerBytes msg.length) (.error (.other 104)))) }, ?_, rfl, ?_⟩
  · refine Machine.run_cons.mpr ⟨by simp [Busy, calling], _, rfl, ?_⟩
    refine Machine.run_cons.mpr ⟨by simp [Busy, Connection.sendWithTwoSysCall], _, ?_, rfl⟩
    exact Option.bind_eq_some_iff.mpr ⟨_, hexec, rfl⟩
  · simp [stream, calling, History.record, WriteResult.count]

theorem Acceptable.of_sendWithTwoSysCall {msg : List UInt8} (hb : s.conn.sendBuffer.Ok)
    (hs : s.Acceptable (fun _ => True) (.sendWithTwoSysCall msg) msg) :
    msg = [] ∨ s.conn.sendBuffer.readable ≠ [] := by
  by_contra hcon
  obtain ⟨hmsg, hempty⟩ := not_or.mp hcon
  obtain ⟨t, hrun, hstack, hstream⟩ := run_torn msg hb (not_not.mp hempty)
  obtain ⟨ht, -⟩ := (underway_calling hb).run hrun
  obtain ⟨t', hframes, -, -, hstream'⟩ := hs.returns (fun _ _ => trivial) (fun _ _ => trivial) hrun ht
  obtain ⟨hshort, -⟩ := (hs.mono fun _ _ => trivial).short hb rfl
  have hemitted : t.stack.flatMap Op.emitted = msg := by
    have hbody := Op.internalResponse_of_size (ofSize_of_short hshort)
    rw [hstack]
    simp [Op.emitted, Op.unsent, History.starts, hbody]
  rw [hemitted, hstream] at hstream'
  rcases hframes with hsame | ⟨header, -, -, hframe, -⟩
  · exact hmsg (List.append_right_eq_self.mp (hstream'.symm.trans hsame))
  · have hlength := congrArg List.length (hstream'.symm.trans hframe)
    simp [tlvHeaderLength] at hlength

/-- Where the `write` of a half fails for good, the message is to be empty, so that the body's half is
nothing, or the halves are to be queued. -/
theorem frames_sendWithTwoSysCall {msg : List UInt8} {labels : List Label} (hb : s.conn.sendBuffer.Ok)
    (hmsg : msg.length ≤ maxTlvLength) (htwo : msg = [] ∨ s.conn.sendBuffer.readable ≠ [])
    (hrun : Machine.run Session.step Busy (s.calling (.sendWithTwoSysCall msg)) labels = some t)
    (hdone : t.stack = []) (hhard : ∃ label ∈ labels, label.isHard = true) : s.Frames msg t := by
  obtain ⟨l₁, front, l₂, rest, rfl, hsoft, -, hempty, hstream⟩ := run_sendWithTwoSysCall hb hrun hdone
  have hhalf : l₁.isHard = true ∨ l₂.isHard = true := by
    obtain ⟨l, hl, hhard⟩ := hhard
    by_cases hmem : l ∈ front ++ rest
    · exact absurd hhard (Label.soft_of_not_write (hsoft l hmem))
    · simp only [List.mem_cons, List.mem_append, not_or] at hl hmem
      rcases hl with rfl | rfl | hl | rfl | hl
      · cases hhard
      · exact .inl hhard
      · exact absurd hl hmem.1
      · exact .inr hhard
      · exact absurd hl hmem.2
  obtain rfl := htwo.resolve_right fun h => h (hempty hhalf)
  have hbody : (if l₂.isHard then [] else Connection.internalResponse []) = ([] : List UInt8) := by
    split <;> rfl
  rw [hbody, List.append_nil] at hstream
  by_cases hheader : l₁.isHard = true
  · rw [if_pos hheader, List.append_nil] at hstream
    exact .inl hstream
  · rw [if_neg hheader] at hstream
    exact frames_of_frameBytes hmsg (hstream.trans (by rw [← Op.headerBytes_append, List.append_nil]))

/-- **When a call is sure to produce a frame that the reader accepts.** In every state of a connection and for
every message: if no `write` fails for good, exactly if the message is within the reader's limit and there
is room for its frame, in the buffer and, for the array of `Send`, on the stack. If a `write` may fail for good,
`SendWithTwoSysCall` needs in addition that no `write` of its own could tear the frame. -/
theorem acceptable_iff (hs : Machine.Reachable Session.step (fun _ _ => True) Fresh s) {msg : List UInt8}
    (hf : History.starts (.call f) = [msg]) :
    (s.Acceptable (fun label => ¬label.isHard = true) f msg ↔
        msg.length ≤ maxTlvLength ∧ f.Fits s.conn.sendBuffer ∧ f.OnStack) ∧
      (s.Acceptable (fun _ => True) f msg ↔
        msg.length ≤ maxTlvLength ∧ f.Fits s.conn.sendBuffer ∧ f.OnStack ∧
          (f = .sendWithTwoSysCall msg → msg = [] ∨ s.conn.sendBuffer.readable ≠ [])) := by
  have hb := buffer_ok_of_reachable hs
  refine ⟨⟨fun h => h.short hb hf, fun h => acceptable_of_short hb hf h.1 h.2.1 h.2.2⟩, fun h => ?_, fun h => ?_⟩
  · obtain ⟨hmsg, hfits, harray⟩ := (h.mono fun _ _ => trivial).short hb hf
    refine ⟨hmsg, hfits, harray, ?_⟩
    rintro rfl
    exact h.of_sendWithTwoSysCall hb
  · obtain ⟨hmsg, hfits, harray, htwo⟩ := h
    intro labels t _ hrun
    by_cases hhard : ∃ label ∈ labels, label.isHard = true
    · obtain ⟨ht, -⟩ := (underway_calling hb).run hrun
      refine ⟨fun op rest => ht.canRun (ofSize_of_acceptable hf hmsg) (room_of_fits hf hmsg hfits) harray,
        fun hdone => ?_⟩
      cases f with
      | send => exact .inl (intact_send hb hrun hdone hhard).stream
      | sendWithTwoSysCall =>
          obtain ⟨rfl, -⟩ := List.cons.inj hf
          exact frames_sendWithTwoSysCall hb hmsg (htwo rfl) hrun hdone hhard
      | send2 | handleClose => exact absurd hhard (not_hard_of_buffering (by simp) hrun hdone)
    · exact acceptable_of_short hb hf hmsg hfits harray labels t (fun l hl hl' => hhard ⟨l, hl, hl'⟩) hrun

theorem acceptable_iff_byte : ∃ s : Session, Machine.Reachable Session.step (fun _ _ => True) Fresh s ∧
    s.Acceptable (fun _ => True) (.send [7] 8388608) [7] := by
  have hfresh := fresh_connectionEstablished 0 5 .invalid false true true
  exact ⟨_, .init hfresh, (acceptable_iff (.init hfresh) rfl).2.mpr ⟨by decide, by decide, by decide, by simp⟩⟩

/-- A message that is one byte too long for the reader is put out nevertheless. -/
theorem unacceptable_frame : ¬∀ s f msg, Machine.Reachable Session.step (fun _ _ => True) Fresh s →
    History.starts (.call f) = [msg] → s.Acceptable (fun _ => True) f msg := by
  intro hacceptable
  have hfresh := fresh_connectionEstablished 0 5 .invalid false true true
  have hb := buffer_ok_of_reachable (.init hfresh : Machine.Reachable step (fun _ _ => True) Fresh _)
  have hlong := hacceptable _ (.send2 (List.replicate 4097 7)) _ (.init hfresh) rfl
  obtain ⟨hshort, -⟩ := (hlong.mono fun _ _ => trivial).short hb rfl
  rw [List.length_replicate] at hshort
  exact absurd hshort (by decide)

end Session

end EpollServer
