import EpollServer.Session

/-!
# The shape of the work stack

What each operation may leave to be done (`Op.Leaves`), and the order in which operations may stand on
the stack (`Op.Above`). The order is what keeps the two halves of a connection apart: below the work of a
callback waits the reset of the parser, never another read, and a half-written two-part message is never
below the start of another one.
-/

namespace EpollServer

namespace Op

/-- The operations of sending and closing, which do not touch the parser. -/
def isWriter : Op → Bool
  | .call _ | .handleClose | .onClose | .sendInternal _ | .enableWrite | .retrieveNone => true
  | _ => false

/-- The operations that finish a write; no new message starts in them. -/
def isFollowup : Op → Bool
  | .handleClose | .onClose | .sendInternal _ | .enableWrite => true
  | _ => false

/-- The lists of operations that an operation may leave to be run. -/
def Leaves : Op → List Op → Prop
  | .call _, ops =>
      ops = [] ∨ ops = [.enableWrite] ∨ ops = [.handleClose] ∨
        ∃ msg, ops = Connection.sendWithTwoSysCall msg
  | .sendInternal _, ops => ops = [] ∨ ops = [.enableWrite] ∨ ops = [.handleClose]
  | .handleMessage, ops => ops = [.readNonBlocking, .messageReady]
  | .readNonBlocking, ops => ops = [] ∨ ops = [.readNonBlocking] ∨ ops = [.handleClose]
  | .messageReady, ops => ops = [] ∨ ∃ calls : List Call, ops = calls.map .call ++ [.messageDone]
  | .handleClose, ops => ops = [] ∨ ops = [.onClose]
  | .handleWrite, ops => ops = [] ∨ ops = [.enableWrite, .retrieveNone] ∨ ops = [.handleClose]
  | .messageDone, ops | .onClose, ops | .enableWrite, ops | .retrieveNone, ops => ops = []

/-- Whether `a` may stand above `b` on the stack. -/
def Above (a : Op) : Op → Prop
  | .handleWrite => True
  | .messageReady => a.isWriter ∨ a = .readNonBlocking
  | .messageDone | .call _ => a.isWriter
  | .sendInternal _ => a.isFollowup
  | .retrieveNone => a = .enableWrite
  | _ => False

end Op

namespace Connection

variable {c c' : Connection} {ops : List Op}

/-- What a pass of the loop in `ReadNonBlocking` can do with the result of its `read`. -/
inductive Pass (c : Connection) : ReadResult → Connection × List Op → Prop
  | interrupted : Pass c (.error .eintr) (c, [.readNonBlocking])
  | again {errno} (hagain : errno.isAgain = true) : Pass c (.error errno) (c, [])
  | failed {code} : Pass c (.error (.other code)) (c, [.handleClose])
  | headerEnd (hlt : c.readTlvHeaderLength < tlvHeaderLength) : Pass c (.data []) (c, [.handleClose])
  | header {data} (hlt : c.readTlvHeaderLength < tlvHeaderLength) (hdata : data ≠ [])
      (hmore : c.readTlvHeaderLength + data.length ≠ tlvHeaderLength) :
      Pass c (.data data)
        ({ c with
            tlvHeader := c.tlvHeader.store c.readTlvHeaderLength data
            readTlvHeaderLength := c.readTlvHeaderLength + data.length },
          [.readNonBlocking])
  | oversized {data header} (hlt : c.readTlvHeaderLength < tlvHeaderLength) (hdata : data ≠ [])
      (hcomplete : c.readTlvHeaderLength + data.length = tlvHeaderLength)
      (hheader : header = (c.tlvHeader.store c.readTlvHeaderLength data).swapped)
      (hlimit : maxTlvLength < header.length.toNat) :
      Pass c (.data data)
        ({ c with
            tlvHeader := header
            readTlvHeaderLength := c.readTlvHeaderLength + data.length },
          [.handleClose])
  | headerDone {data header} (hlt : c.readTlvHeaderLength < tlvHeaderLength) (hdata : data ≠ [])
      (hcomplete : c.readTlvHeaderLength + data.length = tlvHeaderLength)
      (hheader : header = (c.tlvHeader.store c.readTlvHeaderLength data).swapped)
      (hlimit : header.length.toNat ≤ maxTlvLength) :
      Pass c (.data data)
        ({ c with
            tlvHeader := header
            readTlvHeaderLength := c.readTlvHeaderLength + data.length
            readBuffer := Slice.resize c.readBuffer header.length.toNat 0 },
          [.readNonBlocking])
  | bodyEmpty (hge : tlvHeaderLength ≤ c.readTlvHeaderLength)
      (hfull : c.readBodyLength = c.tlvHeader.length.toNat) :
      Pass c (.data []) ({ c with readyToHandleMessage := true }, [])
  | bodyEnd (hge : tlvHeaderLength ≤ c.readTlvHeaderLength)
      (hmore : c.readBodyLength ≠ c.tlvHeader.length.toNat) : Pass c (.data []) (c, [.handleClose])
  | bodyDone {data} (hge : tlvHeaderLength ≤ c.readTlvHeaderLength) (hdata : data ≠ [])
      (hfull : c.readBodyLength + data.length = c.tlvHeader.length.toNat) :
      Pass c (.data data)
        ({ c with
            readBuffer := Slice.overwrite c.readBuffer c.readBodyLength data
            readBodyLength := c.readBodyLength + data.length
            readyToHandleMessage := true }, [])
  | body {data} (hge : tlvHeaderLength ≤ c.readTlvHeaderLength) (hdata : data ≠ [])
      (hmore : c.readBodyLength + data.length ≠ c.tlvHeader.length.toNat) :
      Pass c (.data data)
        ({ c with
            readBuffer := Slice.overwrite c.readBuffer c.readBodyLength data
            readBodyLength := c.readBodyLength + data.length },
          [.readNonBlocking])

/-- **What a pass of the read loop can do.** -/
theorem pass (c : Connection) (res : ReadResult) : c.Pass res (c.readNonBlocking res) := by
  unfold readNonBlocking
  split
  · rename_i hlt
    unfold readHeader
    split
    · exact .headerEnd hlt
    · rename_i data hdata
      dsimp only
      split
      · rename_i hcomplete
        split
        · rename_i hlimit
          exact .oversized hlt hdata hcomplete rfl hlimit
        · rename_i hlimit
          exact .headerDone hlt hdata hcomplete rfl (Nat.le_of_not_lt hlimit)
      · rename_i hmore
        exact .header hlt hdata hmore
    · exact .interrupted
    · rename_i errno hintr
      cases errno with
      | eagain | ewouldblock => exact .again rfl
      | eintr => exact absurd rfl hintr
      | other code => exact .failed
  · rename_i hge
    have hge := Nat.le_of_not_lt hge
    unfold readBody
    split
    · split
      · rename_i hfull
        exact .bodyEmpty hge hfull
      · rename_i hmore
        exact .bodyEnd hge hmore
    · rename_i data hdata
      dsimp only
      split
      · rename_i hfull
        exact .bodyDone hge hdata hfull
      · rename_i hmore
        exact .body hge hdata hmore
    · exact .interrupted
    · rename_i errno hintr
      cases errno with
      | eagain | ewouldblock => exact .again rfl
      | eintr => exact absurd rfl hintr
      | other code => exact .failed

theorem readNonBlocking_ops (r : ReadResult) : Op.Leaves .readNonBlocking (c.readNonBlocking r).2 := by
  have hpass := c.pass r
  generalize c.readNonBlocking r = out at hpass ⊢
  cases hpass with
  | again | bodyEmpty | bodyDone => exact .inl rfl
  | interrupted | header | headerDone | body => exact .inr (.inl rfl)
  | failed | headerEnd | oversized | bodyEnd => exact .inr (.inr rfl)

/-- The read loop assigns the members that belong to the reader, and no other. -/
theorem readNonBlocking_frame (r : ReadResult) : ∃ readBuffer headerLength bodyLength header ready,
    (c.readNonBlocking r).1 = { c with
      readBuffer := readBuffer
      readTlvHeaderLength := headerLength
      readBodyLength := bodyLength
      tlvHeader := header
      readyToHandleMessage := ready } := by
  have hpass := c.pass r
  generalize c.readNonBlocking r = out at hpass ⊢
  cases hpass <;> exact ⟨_, _, _, _, _, rfl⟩

theorem bufferRemaining_cases {bytes : List UInt8} {n : Nat}
    (h : c.bufferRemaining bytes n = some (c', ops)) :
    (bytes.length ≤ n ∧ c' = c ∧ ops = []) ∨
      n < bytes.length ∧ ops = [.enableWrite] ∧ ∃ buffer,
        c.sendBuffer.append (bytes.drop n) (bytes.length - n : Nat) = some buffer ∧
          c' = { c with sendBuffer := buffer } := by
  unfold bufferRemaining at h
  split at h
  · rename_i hlt
    obtain ⟨buffer, hbuffer, heq⟩ := Option.bind_eq_some_iff.mp h
    cases heq
    exact .inr ⟨hlt, rfl, buffer, hbuffer, rfl⟩
  · rename_i hge
    cases h
    exact .inl ⟨Nat.le_of_not_lt hge, rfl, rfl⟩

theorem afterWrite_cases {bytes : List UInt8} {r : WriteResult}
    (h : c.afterWrite bytes r = some (c', ops)) :
    (r.isHard = true ∧ c' = c ∧ ops = [.handleClose]) ∨
      r.isHard = false ∧ c.bufferRemaining bytes r.count = some (c', ops) := by
  cases r with
  | accepted count => exact .inr ⟨rfl, h⟩
  | error errno =>
      by_cases hretry : errno.isRetry
      · simp only [afterWrite, hretry, ↓reduceIte] at h
        exact .inr ⟨by simp [WriteResult.isHard, hretry], h⟩
      · simp only [afterWrite, hretry, Bool.false_eq_true, ↓reduceIte, Option.some.injEq,
          Prod.mk.injEq] at h
        exact .inl ⟨by simp [WriteResult.isHard, hretry], h.1.symm, h.2.symm⟩

theorem send2_cases {msg : List UInt8} (h : c.send2 msg = some (c', ops)) :
    ops = [.enableWrite] ∧ ∃ buffer buffer',
      c.sendBuffer.append (headerBytes msg.length) tlvHeaderLength = some buffer ∧
        buffer.append msg (CInt.ofSize msg.length) = some buffer' ∧
          c' = { c with sendBuffer := buffer' } := by
  obtain ⟨buffer, hbuffer, h⟩ := Option.bind_eq_some_iff.mp h
  obtain ⟨buffer', hbuffer', h⟩ := Option.bind_eq_some_iff.mp h
  cases h
  exact ⟨rfl, buffer, buffer', hbuffer, hbuffer', rfl⟩

theorem retrieve_cases {n : Nat} (h : c.retrieve n = some (c', ops)) :
    ops = [] ∧ ∃ buffer, c.sendBuffer.retrieve n = some buffer ∧
      c' = { c with sendBuffer := buffer } := by
  obtain ⟨buffer, hbuffer, h⟩ := Option.bind_eq_some_iff.mp h
  cases h
  exact ⟨rfl, buffer, hbuffer, rfl⟩

theorem writeNonBlocking_cases {r : WriteResult} (h : c.writeNonBlocking r = some (c', ops)) :
    (∃ count, r = .accepted count ∧ c.retrieve count = some (c', ops)) ∨
      (r.count = 0 ∧ r.isHard = false ∧ c' = c ∧ ops = [.enableWrite, .retrieveNone]) ∨
      r.isHard = true ∧ c' = c ∧ ops = [.handleClose] := by
  cases r with
  | accepted count => exact .inl ⟨count, rfl, h⟩
  | error errno =>
      by_cases hretry : errno.isRetry
      · simp only [writeNonBlocking, hretry, ↓reduceIte, Option.some.injEq, Prod.mk.injEq] at h
        exact .inr (.inl ⟨rfl, by simp [WriteResult.isHard, hretry], h.1.symm, h.2.symm⟩)
      · simp only [writeNonBlocking, hretry, Bool.false_eq_true, ↓reduceIte, Option.some.injEq,
          Prod.mk.injEq] at h
        exact .inr (.inr ⟨by simp [WriteResult.isHard, hretry], h.1.symm, h.2.symm⟩)

theorem handleClose_cases : (c.state = .disconected ∧ c.handleClose = (c, [])) ∨
    c.state ≠ .disconected ∧ c.handleClose =
      ({ c with state := .disconected }, if c.onCloseCallback then [.onClose] else []) := by
  unfold handleClose
  split
  · exact .inr ⟨‹_›, rfl⟩
  · rename_i hstate
    exact .inl ⟨not_not.mp hstate, rfl⟩

end Connection

namespace Op

/-- The operations that try to hand `bytes` to the kernel at once. -/
def Writes : Op → List UInt8 → Prop
  | .call (.send msg room), bytes => Connection.sendResponse msg room = some bytes
  | .sendInternal msg, bytes => bytes = Connection.internalResponse msg
  | _, _ => False

/-- **What running an operation can do.** One constructor for each way out of its code. -/
inductive Exec (c : Connection) : Op → Label → Connection → List Op → Prop
  | writeFailed {op : Op} {bytes : List UInt8} {r : WriteResult} (hop : op.Writes bytes)
      (hempty : c.sendBuffer.readableBytes = 0) (hhard : r.isHard = true) :
      Exec c op (.write bytes r) c [.handleClose]
  | writeAll {op : Op} {bytes : List UInt8} {r : WriteResult} (hop : op.Writes bytes)
      (hempty : c.sendBuffer.readableBytes = 0) (hsoft : r.isHard = false)
      (hcount : r.count = bytes.length) : Exec c op (.write bytes r) c []
  | writePart {op : Op} {bytes : List UInt8} {r : WriteResult} {buffer : Buffer}
      (hop : op.Writes bytes) (hempty : c.sendBuffer.readableBytes = 0) (hsoft : r.isHard = false)
      (hcount : r.count < bytes.length)
      (happend : c.sendBuffer.append (bytes.drop r.count) (bytes.length - r.count : Nat)
        = some buffer) :
      Exec c op (.write bytes r) { c with sendBuffer := buffer } [.enableWrite]
  | queueNone {op : Op} (hop : op.Writes []) (hbusy : c.sendBuffer.readableBytes ≠ 0) :
      Exec c op .tau c []
  | queueAll {op : Op} {bytes : List UInt8} {buffer : Buffer} (hop : op.Writes bytes)
      (hbusy : c.sendBuffer.readableBytes ≠ 0)
      (happend : c.sendBuffer.append bytes (bytes.length : Nat) = some buffer) :
      Exec c op .tau { c with sendBuffer := buffer } [.enableWrite]
  | send2 {msg : List UInt8} {buffer buffer' : Buffer}
      (hheader : c.sendBuffer.append (Connection.headerBytes msg.length) tlvHeaderLength
        = some buffer)
      (hbody : buffer.append msg (CInt.ofSize msg.length) = some buffer') :
      Exec c (.call (.send2 msg)) .tau { c with sendBuffer := buffer' } [.enableWrite]
  | sendWithTwoSysCall {msg : List UInt8} :
      Exec c (.call (.sendWithTwoSysCall msg)) .tau c (Connection.sendWithTwoSysCall msg)
  | callClose : Exec c (.call .handleClose) .tau c [.handleClose]
  | handleMessage : Exec c .handleMessage .tau c [.readNonBlocking, .messageReady]
  | read {r : ReadResult} (hcount : r.bytes.length ≤ c.readCount) :
      Exec c .readNonBlocking (.read c.readCount r) (c.readNonBlocking r).1 (c.readNonBlocking r).2
  | noMessage (hmessage : c.hasMessage = false) : Exec c .messageReady .tau c []
  | message {calls : List Call} (hmessage : c.hasMessage = true) :
      Exec c .messageReady (.onMessage calls) c (calls.map .call ++ [.messageDone])
  | messageDone : Exec c .messageDone .tau c.messageDone []
  | closed (hstate : c.state = .disconected) : Exec c .handleClose .tau c []
  | close (hstate : c.state ≠ .disconected) :
      Exec c .handleClose .tau { c with state := .disconected }
        (if c.onCloseCallback then [.onClose] else [])
  | onClose : Exec c .onClose .onClose c []
  | flush {count : Nat} {buffer : Buffer} (hcount : count ≤ c.sendBuffer.readable.length)
      (hretrieve : c.sendBuffer.retrieve count = some buffer) :
      Exec c .handleWrite (.write c.sendBuffer.readable (.accepted count))
        { c with sendBuffer := buffer } []
  | flushRetry {r : WriteResult} (hcount : r.count = 0) (hsoft : r.isHard = false) :
      Exec c .handleWrite (.write c.sendBuffer.readable r) c [.enableWrite, .retrieveNone]
  | flushFailed {r : WriteResult} (hhard : r.isHard = true) :
      Exec c .handleWrite (.write c.sendBuffer.readable r) c [.handleClose]
  | retrieveNone {buffer : Buffer} (hretrieve : c.sendBuffer.retrieve 0 = some buffer) :
      Exec c .retrieveNone .tau { c with sendBuffer := buffer } []
  | enableWrite {ok : Bool} :
      Exec c .enableWrite (.epollCtl ok) { c with channel := c.channel.enableWrite ok } []

variable {c c' : Connection} {op : Op} {label : Label} {ops : List Op}

theorem exec_of_afterWrite {bytes : List UInt8} {r : WriteResult} (hop : op.Writes bytes)
    (hempty : c.sendBuffer.readableBytes = 0) (hle : r.count ≤ bytes.length)
    (h : c.afterWrite bytes r = some (c', ops)) : Exec c op (.write bytes r) c' ops := by
  rcases Connection.afterWrite_cases h with ⟨hhard, rfl, rfl⟩ | ⟨hsoft, h⟩
  · exact .writeFailed hop hempty hhard
  · rcases Connection.bufferRemaining_cases h with ⟨hge, rfl, rfl⟩ | ⟨hlt, rfl, buffer, happend, rfl⟩
    · exact .writeAll hop hempty hsoft (by omega)
    · exact .writePart hop hempty hsoft hlt happend

theorem exec_of_bufferRemaining {bytes : List UInt8} (hop : op.Writes bytes)
    (hbusy : c.sendBuffer.readableBytes ≠ 0) (h : c.bufferRemaining bytes 0 = some (c', ops)) :
    Exec c op .tau c' ops := by
  rcases Connection.bufferRemaining_cases h with ⟨hge, rfl, rfl⟩ | ⟨_, rfl, buffer, happend, rfl⟩
  · obtain rfl := List.length_eq_zero_iff.mp (Nat.le_zero.mp hge)
    exact .queueNone hop hbusy
  · exact .queueAll hop hbusy happend

/-- `Exec` covers the runs of every operation. -/
theorem exec_cases (h : op.exec c label = some (c', ops)) : Exec c op label c' ops := by
  cases op with
  | call f =>
      cases f with
      | send msg =>
          cases label with
          | write bytes r =>
              obtain ⟨⟨hempty, hresponse, hle⟩, h⟩ := Option.ite_none_right_eq_some.mp h
              exact exec_of_afterWrite hresponse hempty hle h
          | tau =>
              obtain ⟨hbusy, h⟩ := Option.ite_none_left_eq_some.mp h
              obtain ⟨bytes, hresponse, h⟩ := Option.bind_eq_some_iff.mp h
              exact exec_of_bufferRemaining hresponse hbusy h
          | event | call | read | epollCtl | onMessage | onClose => cases h
      | send2 msg =>
          cases label with
          | tau =>
              obtain ⟨rfl, buffer, buffer', hheader, hbody, rfl⟩ := Connection.send2_cases h
              exact .send2 hheader hbody
          | event | call | read | write | epollCtl | onMessage | onClose => cases h
      | sendWithTwoSysCall msg =>
          cases label with
          | tau =>
              cases h
              exact .sendWithTwoSysCall
          | event | call | read | write | epollCtl | onMessage | onClose => cases h
      | handleClose =>
          cases label with
          | tau =>
              cases h
              exact .callClose
          | event | call | read | write | epollCtl | onMessage | onClose => cases h
  | sendInternal msg =>
      cases label with
      | write bytes r =>
          obtain ⟨⟨hempty, -, hresponse, hle⟩, h⟩ := Option.ite_none_right_eq_some.mp h
          exact exec_of_afterWrite hresponse hempty hle h
      | tau =>
          obtain ⟨hbusy, h⟩ := Option.ite_none_left_eq_some.mp h
          exact exec_of_bufferRemaining rfl hbusy h
      | event | call | read | epollCtl | onMessage | onClose => cases h
  | handleMessage =>
      cases label with
      | tau =>
          cases h
          exact .handleMessage
      | event | call | read | write | epollCtl | onMessage | onClose => cases h
  | readNonBlocking =>
      cases label with
      | read count r =>
          obtain ⟨⟨hcount, hle⟩, hread⟩ := Option.ite_none_right_eq_some.mp h
          have heq := Option.some.inj hread
          obtain rfl : (c.readNonBlocking r).1 = c' := congrArg Prod.fst heq
          obtain rfl : (c.readNonBlocking r).2 = ops := congrArg Prod.snd heq
          subst hcount
          exact .read hle
      | event | call | tau | write | epollCtl | onMessage | onClose => cases h
  | messageReady =>
      cases label with
      | tau =>
          obtain ⟨hmessage, h⟩ := Option.ite_none_left_eq_some.mp h
          cases h
          exact .noMessage (Bool.eq_false_iff.mpr hmessage)
      | onMessage calls =>
          obtain ⟨hmessage, h⟩ := Option.ite_none_right_eq_some.mp h
          cases h
          exact .message hmessage
      | event | call | read | write | epollCtl | onClose => cases h
  | messageDone =>
      cases label with
      | tau =>
          cases h
          exact .messageDone
      | event | call | read | write | epollCtl | onMessage | onClose => cases h
  | handleClose =>
      cases label with
      | tau =>
          rcases c.handleClose_cases with ⟨hstate, hclose⟩ | ⟨hstate, hclose⟩ <;>
            rw [exec, hclose] at h <;> cases h
          · exact .closed hstate
          · exact .close hstate
      | event | call | read | write | epollCtl | onMessage | onClose => cases h
  | onClose =>
      cases label with
      | onClose =>
          cases h
          exact .onClose
      | event | call | tau | read | write | epollCtl | onMessage => cases h
  | handleWrite =>
      cases label with
      | write bytes r =>
          obtain ⟨⟨hbytes, hle⟩, hwrite⟩ := Option.ite_none_right_eq_some.mp h
          subst hbytes
          rcases Connection.writeNonBlocking_cases hwrite with
            ⟨count, rfl, hcount⟩ | ⟨hcount, hsoft, rfl, rfl⟩ | ⟨hhard, rfl, rfl⟩
          · obtain ⟨rfl, buffer, hretrieve, rfl⟩ := Connection.retrieve_cases hcount
            exact .flush hle hretrieve
          · exact .flushRetry hcount hsoft
          · exact .flushFailed hhard
      | event | call | tau | read | epollCtl | onMessage | onClose => cases h
  | retrieveNone =>
      cases label with
      | tau =>
          obtain ⟨rfl, buffer, hretrieve, rfl⟩ := Connection.retrieve_cases h
          exact .retrieveNone hretrieve
      | event | call | read | write | epollCtl | onMessage | onClose => cases h
  | enableWrite =>
      cases label with
      | epollCtl ok =>
          cases h
          exact .enableWrite
      | event | call | tau | read | write | onMessage | onClose => cases h

theorem Exec.of_messageDone (h : Exec c .messageDone label c' ops) :
    label = .tau ∧ c' = c.messageDone ∧ ops = [] := by
  cases h with
  | messageDone => exact ⟨rfl, rfl, rfl⟩
  | writeFailed hop | writeAll hop | writePart hop | queueNone hop | queueAll hop => exact hop.elim

theorem Exec.leaves (h : Exec c op label c' ops) : op.Leaves ops := by
  cases h with
  | writeFailed hop | writeAll hop | writePart hop | queueNone hop | queueAll hop =>
      cases op with
      | call f => simp [Leaves]
      | sendInternal msg => simp [Leaves]
      | _ => exact hop.elim
  | send2 | callClose => simp [Leaves]
  | sendWithTwoSysCall => exact .inr (.inr (.inr ⟨_, rfl⟩))
  | read => exact c.readNonBlocking_ops _
  | message => exact .inr ⟨_, rfl⟩
  | close => split <;> simp [Leaves]
  | _ => simp [Leaves]

theorem Leaves.isWriter (h : op.Leaves ops) (hop : op.isWriter = true) {a : Op} (ha : a ∈ ops) :
    a.isWriter = true := by
  cases op with
  | call f =>
      rcases h with rfl | rfl | rfl | ⟨msg, rfl⟩ <;>
        simp only [Connection.sendWithTwoSysCall, List.mem_cons, List.not_mem_nil, or_false] at ha
      · exact ha ▸ rfl
      · exact ha ▸ rfl
      · rcases ha with rfl | rfl <;> rfl
  | sendInternal msg =>
      rcases h with rfl | rfl | rfl <;> simp only [List.mem_cons, List.not_mem_nil, or_false] at ha <;>
        exact ha ▸ rfl
  | handleClose =>
      rcases h with rfl | rfl <;> simp only [List.mem_cons, List.not_mem_nil, or_false] at ha
      exact ha ▸ rfl
  | onClose | enableWrite | retrieveNone =>
      obtain rfl : ops = [] := h
      cases ha
  | handleMessage | handleWrite | readNonBlocking | messageReady | messageDone => cases hop

theorem Leaves.isFollowup (h : op.Leaves ops) (hop : op.isFollowup = true) {a : Op} (ha : a ∈ ops) :
    a.isFollowup = true := by
  cases op with
  | sendInternal msg =>
      rcases h with rfl | rfl | rfl <;> simp only [List.mem_cons, List.not_mem_nil, or_false] at ha <;>
        exact ha ▸ rfl
  | handleClose =>
      rcases h with rfl | rfl <;> simp only [List.mem_cons, List.not_mem_nil, or_false] at ha
      exact ha ▸ rfl
  | onClose | enableWrite =>
      obtain rfl : ops = [] := h
      cases ha
  | call | retrieveNone | handleMessage | handleWrite | readNonBlocking | messageReady
  | messageDone => cases hop

/-- What an operation leaves may stand where the operation stood. -/
theorem Leaves.above (h : op.Leaves ops) {a b : Op} (ha : a ∈ ops) (hb : op.Above b) :
    a.Above b := by
  cases b with
  | handleWrite => trivial
  | messageDone | call => exact h.isWriter hb ha
  | sendInternal => exact h.isFollowup hb ha
  | messageReady =>
      rcases hb with hop | rfl
      · exact .inl (h.isWriter hop ha)
      · rcases h with rfl | rfl | rfl <;> simp only [List.mem_cons, List.not_mem_nil, or_false] at ha
        · exact .inr ha
        · exact .inl (ha ▸ rfl)
  | retrieveNone =>
      obtain rfl : op = .enableWrite := hb
      obtain rfl : ops = [] := h
      cases ha
  | handleMessage | readNonBlocking | handleClose | onClose | enableWrite => exact hb.elim

theorem Leaves.pairwise (h : op.Leaves ops) : ops.Pairwise Above := by
  cases op with
  | call f =>
      rcases h with rfl | rfl | rfl | ⟨msg, rfl⟩ <;>
        simp [Connection.sendWithTwoSysCall, Above, Op.isFollowup]
  | messageReady =>
      rcases h with rfl | ⟨calls, rfl⟩
      · exact .nil
      · refine List.pairwise_append.mpr ⟨?_, List.pairwise_singleton _ _, ?_⟩
        · exact List.pairwise_map.mpr (List.pairwise_of_forall fun _ _ => rfl)
        · intro a ha b hb
          obtain ⟨f, -, rfl⟩ := List.mem_map.mp ha
          obtain rfl := List.mem_singleton.mp hb
          rfl
  | handleMessage =>
      obtain rfl : ops = [.readNonBlocking, .messageReady] := h
      simp [Above]
  | handleWrite => rcases h with rfl | rfl | rfl <;> simp [Above]
  | sendInternal | readNonBlocking => rcases h with rfl | rfl | rfl <;> simp
  | handleClose => rcases h with rfl | rfl <;> simp
  | messageDone | onClose | enableWrite | retrieveNone =>
      obtain rfl : ops = [] := h
      exact .nil

end Op

namespace Session

/-- The operations on the stack are in an order in which they may stand. -/
def Stacked (s : Session) : Prop := s.stack.Pairwise Op.Above

theorem mem_handleEvent {s : Session} {events : EpollEvents} {a : Op}
    (ha : a ∈ (s.handleEvent events).stack) : a = .handleMessage ∨ a = .handleWrite := by
  unfold handleEvent Connection.handleEventWithGuard at ha
  dsimp only at ha
  rcases List.mem_append.mp ha with ha | ha <;> split at ha <;> simp_all

theorem stacked_handleEvent (s : Session) (events : EpollEvents) :
    (s.handleEvent events).Stacked := by
  unfold Stacked handleEvent Connection.handleEventWithGuard
  dsimp only
  split <;> split <;> simp [Op.Above]

theorem Stacked.step {s s' : Session} {label : Label} (hs : s.Stacked)
    (h : s.step label = some s') : s'.Stacked := by
  rcases step_cases h with ⟨-, events, -, rfl⟩ | ⟨-, f, -, rfl⟩ |
    ⟨op, rest, conn, ops, hstack, hexec, rfl⟩
  · exact stacked_handleEvent s events
  · exact List.pairwise_singleton _ _
  · have hleaves := (Op.exec_cases hexec).leaves
    rw [Stacked, hstack, List.pairwise_cons] at hs
    exact List.pairwise_append.mpr
      ⟨hleaves.pairwise, hs.2, fun a ha b hb => hleaves.above ha (hs.1 b hb)⟩

end Session

end EpollServer
