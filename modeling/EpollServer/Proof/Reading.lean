import EpollServer.Proof.Stack

/-!
# What the reader delivers

The four members that the read loop keeps across calls are determined by the bytes of the unfinished
frame: `Parsing` says how, for a stream that ends in a header, in a body, or behind a header that
announces too much. Every `read` extends those bytes by what it returned, and the reset after a callback
removes a whole frame from their front. So the messages delivered are the bodies of the frames read,
however the stream was cut.
-/

namespace EpollServer

open Framing

/-- The members of a connection that belong to the reader. -/
structure Reader where
  readBuffer : List UInt8
  readTlvHeaderLength : Nat
  readBodyLength : Nat
  tlvHeader : TLVHeader
  readyToHandleMessage : Bool

def Connection.reader (c : Connection) : Reader where
  readBuffer := c.readBuffer
  readTlvHeaderLength := c.readTlvHeaderLength
  readBodyLength := c.readBodyLength
  tlvHeader := c.tlvHeader
  readyToHandleMessage := c.readyToHandleMessage

namespace Reader

/-- How the reader stands after the bytes `r` of a frame that is not delivered yet. -/
inductive Parsing (p : Reader) (r : List UInt8) : Prop
  | header (hlen : p.readTlvHeaderLength = r.length) (hlt : r.length < tlvHeaderLength)
      (hbytes : p.tlvHeader.bytes.take r.length = r) (hbody : p.readBodyLength = 0)
      (hready : p.readyToHandleMessage = false)
  | body (hlen : p.readTlvHeaderLength = tlvHeaderLength)
      (hlimit : p.tlvHeader.length.toNat ≤ maxTlvLength)
      (hsize : p.readBuffer.length = p.tlvHeader.length.toNat)
      (hbytes : r = p.tlvHeader.wire ++ p.readBuffer.take p.readBodyLength)
      (hready : p.readyToHandleMessage = true → p.readBodyLength = p.readBuffer.length)
  | oversized (hlen : p.readTlvHeaderLength = tlvHeaderLength)
      (hlimit : maxTlvLength < p.tlvHeader.length.toNat) (hbytes : p.tlvHeader.wire <+: r)
      (hready : p.readyToHandleMessage = false)

/-- The reader stands after the bytes `r`, and its buffer is within bounds. -/
structure At (p : Reader) (r : List UInt8) : Prop where
  size_le : p.readBuffer.length ≤ maxTlvLength
  body_le : p.readBodyLength ≤ p.readBuffer.length
  parsing : p.Parsing r

/-- The reader before the first byte of a frame. -/
structure Initial (p : Reader) : Prop where
  header : p.readTlvHeaderLength = 0
  body : p.readBodyLength = 0
  ready : p.readyToHandleMessage = false

theorem Initial.at_nil {p : Reader} (hp : p.Initial) (hsize : p.readBuffer.length ≤ maxTlvLength) :
    p.At [] where
  size_le := hsize
  body_le := hp.body ▸ Nat.zero_le _
  parsing := .header hp.header (by decide) rfl hp.body hp.ready

theorem oversized_of_wire {header : TLVHeader} {r : List UInt8}
    (hlimit : maxTlvLength < header.length.toNat) (hbytes : header.wire <+: r) :
    Oversized tlv r := by
  obtain ⟨t, rfl⟩ := hbytes
  have htake : (header.wire ++ t).take tlv.headerLength = header.wire :=
    List.take_left' header.length_wire
  refine ⟨?_, ?_⟩
  · rw [List.length_append]
    exact Nat.le_add_right _ _
  · rw [htake, bodyLength_wire]
    exact hlimit

/-- The frame whose header and body the reader holds. -/
def frame (p : Reader) (hlimit : p.tlvHeader.length.toNat ≤ maxTlvLength)
    (hsize : p.readBuffer.length = p.tlvHeader.length.toNat) : Frame tlv where
  header := p.tlvHeader.wire
  body := p.readBuffer
  length_header := rfl
  length_body := by rw [bodyLength_wire, hsize]
  length_body_le := by rwa [bodyLength_wire]

/-- The reader has a whole frame, and only the callback is missing. -/
def Full (p : Reader) : Prop :=
  p.readTlvHeaderLength = tlvHeaderLength ∧ p.readBodyLength = p.tlvHeader.length.toNat

theorem At.full_of_ready {p : Reader} {r : List UInt8} (hp : p.At r)
    (hready : p.readyToHandleMessage = true) : p.Full := by
  cases hp.parsing with
  | header _ _ _ _ hnot => exact absurd (hnot.symm.trans hready) Bool.false_ne_true
  | body hlen _ hsize _ hfull => exact ⟨hlen, (hfull hready).trans hsize⟩
  | oversized _ _ _ hnot => exact absurd (hnot.symm.trans hready) Bool.false_ne_true

theorem At.symbols_of_full {p : Reader} {r : List UInt8} (hp : p.At r) (hfull : p.Full) :
    ∃ f : Frame tlv, f.body = p.readBuffer ∧ r = f.symbols := by
  have hbody := hp.body_le
  have hle := hp.size_le
  cases hp.parsing with
  | header hlen hlt => exact absurd (hlen.symm.trans hfull.1) (Nat.ne_of_lt hlt)
  | body hlen hlimit hsize hbytes hready =>
      refine ⟨p.frame hlimit hsize, rfl, ?_⟩
      rw [hbytes, hfull.2, ← hsize, List.take_length]
      rfl
  | oversized hlen hlimit =>
      have hlen := hfull.2
      omega

theorem At.not_complete {p : Reader} {r : List UInt8} (hp : p.At r) (hfull : ¬p.Full) :
    ¬Complete tlv r := by
  rw [not_complete_iff]
  cases hp.parsing with
  | header hlen hlt => exact .inl (.inl hlt)
  | body hlen hlimit hsize hbytes hready =>
      have hne : p.readBodyLength ≠ p.tlvHeader.length.toNat := fun heq => hfull ⟨hlen, heq⟩
      have hbody := hp.body_le
      have htake : r.take tlv.headerLength = p.tlvHeader.wire := by
        rw [hbytes]
        exact List.take_left' p.tlvHeader.length_wire
      have hlength : r.length = tlv.headerLength + p.readBodyLength := by
        rw [hbytes, List.length_append, List.length_take, Nat.min_eq_left hbody]
        rfl
      refine .inl (.inr ⟨?_, ?_⟩)
      · rw [htake, bodyLength_wire]
        exact hlimit
      · rw [htake, bodyLength_wire, hlength]
        omega
  | oversized hlen hlimit hbytes => exact .inr (oversized_of_wire hlimit hbytes)

end Reader

namespace Connection

variable {c : Connection} {r : List UInt8}

/-- The count asked for in the body does not wrap around. -/
theorem readCount_body (hp : c.reader.At r) (hge : tlvHeaderLength ≤ c.readTlvHeaderLength) :
    c.readCount = c.readBuffer.length - c.readBodyLength := by
  have hbody : c.readBodyLength ≤ c.readBuffer.length := hp.body_le
  rw [readCount, if_neg (Nat.not_lt.mpr hge), sizeSub, if_pos hbody]

/-- A `read` in the body asks for no bytes only when the body is complete. -/
theorem readCount_eq_zero (hp : c.reader.At r) (hfull : c.reader.Full) : c.readCount = 0 := by
  have hge : tlvHeaderLength ≤ c.readTlvHeaderLength := hfull.1.ge
  have hbody : c.readBodyLength = c.tlvHeader.length.toNat := hfull.2
  have hle : c.readBodyLength ≤ c.readBuffer.length := hp.body_le
  have hsize : c.readBuffer.length ≤ maxTlvLength := hp.size_le
  rw [readCount_body hp hge]
  cases hp.parsing with
  | header hlen hlt => exact absurd (hlen.trans_lt hlt) (Nat.not_lt.mpr hge)
  | body _ _ hsize' =>
      change c.readBuffer.length = c.tlvHeader.length.toNat at hsize'
      omega
  | oversized _ hlimit =>
      change maxTlvLength < c.tlvHeader.length.toNat at hlimit
      omega

section Header

variable {data : List UInt8} (hp : c.reader.At r) (hlt : c.readTlvHeaderLength < tlvHeaderLength)

include hp hlt

/-- Inside of a header nothing is known but its bytes. -/
theorem in_header : c.readTlvHeaderLength = r.length ∧ c.tlvHeader.bytes.take r.length = r ∧
    c.readBodyLength = 0 ∧ c.readyToHandleMessage = false := by
  cases hp.parsing with
  | header hlen _ hbytes hbody hready => exact ⟨hlen, hbytes, hbody, hready⟩
  | body hlen | oversized hlen => exact absurd hlen (Nat.ne_of_lt hlt)

theorem bytes_store_header (hcount : c.readTlvHeaderLength + data.length ≤ tlvHeaderLength) :
    (c.tlvHeader.store c.readTlvHeaderLength data).bytes.take (r ++ data).length = r ++ data := by
  obtain ⟨hlen, hbytes, -⟩ := in_header hp hlt
  rw [TLVHeader.bytes_store hcount, hlen, List.length_append,
    Slice.take_overwrite (by rw [TLVHeader.length_bytes]; omega), hbytes]

theorem wire_store_header (hcomplete : c.readTlvHeaderLength + data.length = tlvHeaderLength) :
    (c.tlvHeader.store c.readTlvHeaderLength data).swapped.wire = r ++ data := by
  have hstored := bytes_store_header hp hlt hcomplete.le
  have hlength : (r ++ data).length = tlvHeaderLength := by
    rw [List.length_append, ← (in_header hp hlt).1, hcomplete]
  rwa [hlength, List.take_of_length_le (by rw [TLVHeader.length_bytes]), ← TLVHeader.wire_swapped]
    at hstored

end Header

section Body

variable (hp : c.reader.At r) (hge : tlvHeaderLength ≤ c.readTlvHeaderLength)

include hp hge

theorem header_eq : c.readTlvHeaderLength = tlvHeaderLength := by
  cases hp.parsing with
  | header hlen hlt => exact absurd (hlen.trans_lt hlt) (Nat.not_lt.mpr hge)
  | body hlen | oversized hlen => exact hlen

/-- Bytes stored in the body extend the bytes read, and the frame may be reported once it is whole. -/
theorem at_overwrite {data : List UInt8} {ready : Bool}
    (hroom : c.readBodyLength + data.length ≤ c.readBuffer.length)
    (hready : ready = true → c.readBodyLength + data.length = c.tlvHeader.length.toNat) :
    Reader.At { c.reader with
      readBuffer := Slice.overwrite c.readBuffer c.readBodyLength data
      readBodyLength := c.readBodyLength + data.length
      readyToHandleMessage := ready } (r ++ data) := by
  have hbody : c.readBodyLength ≤ c.readBuffer.length := hp.body_le
  have hover := Slice.length_overwrite hroom
  have hle : c.readBodyLength + data.length
      ≤ (Slice.overwrite c.readBuffer c.readBodyLength data).length := hover ▸ hroom
  cases hp.parsing with
  | header hlen hlt => exact absurd (hlen.trans_lt hlt) (Nat.not_lt.mpr hge)
  | body hlen hlimit hsize hbytes =>
      have hbytes' : r ++ data = c.tlvHeader.wire ++
          (Slice.overwrite c.readBuffer c.readBodyLength data).take
            (c.readBodyLength + data.length) := by
        rw [Slice.take_overwrite hbody, ← List.append_assoc]
        exact congrArg (· ++ data) hbytes
      have hsize' : (Slice.overwrite c.readBuffer c.readBodyLength data).length
          = c.tlvHeader.length.toNat := hover.trans hsize
      exact ⟨hsize' ▸ hlimit, hle, .body hlen hlimit hsize' hbytes' fun h => (hready h).trans hsize'.symm⟩
  | oversized hlen hlimit hbytes =>
      have hsize : c.readBuffer.length ≤ maxTlvLength := hp.size_le
      change maxTlvLength < c.tlvHeader.length.toNat at hlimit
      refine ⟨hover ▸ hsize, hle, .oversized hlen hlimit (hbytes.trans (List.prefix_append _ _)) ?_⟩
      refine Bool.eq_false_iff.mpr fun h => ?_
      have hfull := hready h
      omega

end Body

/-- **One `read` extends the bytes of the unfinished frame by what it returned.** -/
theorem at_readNonBlocking (hp : c.reader.At r) {res : ReadResult}
    (hcount : res.bytes.length ≤ c.readCount) :
    (c.readNonBlocking res).1.reader.At (r ++ res.bytes) := by
  have hsame : c.reader.At (r ++ []) := by rwa [List.append_nil]
  have hpass := c.pass res
  generalize c.readNonBlocking res = out at hpass ⊢
  cases hpass with
  | interrupted | again | failed | headerEnd | bodyEnd => exact hsame
  | @header data hlt hdata hmore =>
      change data.length ≤ _ at hcount
      change Reader.At _ (r ++ data)
      rw [readCount, if_pos hlt] at hcount
      obtain ⟨hlen, -, hbody, hready⟩ := in_header hp hlt
      have hlength : (r ++ data).length = c.readTlvHeaderLength + data.length := by
        rw [List.length_append, hlen]
      exact ⟨hp.size_le, hp.body_le,
        .header hlength.symm (by omega) (bytes_store_header hp hlt (by omega)) hbody hready⟩
  | oversized hlt hdata hcomplete hheader hlimit =>
      have hwire := wire_store_header hp hlt hcomplete
      rw [← hheader] at hwire
      exact ⟨hp.size_le, hp.body_le,
        .oversized hcomplete hlimit (hwire ▸ List.prefix_rfl) (in_header hp hlt).2.2.2⟩
  | @headerDone data header hlt hdata hcomplete hheader hlimit =>
      have hwire := wire_store_header hp hlt hcomplete
      rw [← hheader] at hwire
      obtain ⟨-, -, hbody, hready⟩ := in_header hp hlt
      have hsize := Slice.length_resize c.readBuffer header.length.toNat 0
      refine ⟨hsize.trans_le hlimit, hbody.trans_le (Nat.zero_le _),
        .body hcomplete hlimit hsize ?_ fun h => absurd (hready.symm.trans h) Bool.false_ne_true⟩
      change r ++ data = header.wire ++ List.take c.readBodyLength _
      rw [hbody, List.take_zero, List.append_nil, hwire]
  | bodyEmpty hge hfull =>
      refine ⟨hp.size_le, hp.body_le, ?_⟩
      cases hp.parsing with
      | header hlen hlt => exact absurd (hlen.trans_lt hlt) (Nat.not_lt.mpr hge)
      | body hlen hlimit hsize hbytes =>
          exact .body hlen hlimit hsize (by rwa [ReadResult.bytes, List.append_nil])
            fun _ => hfull.trans hsize.symm
      | oversized hlen hlimit =>
          have hbody := hp.body_le.trans hp.size_le
          exact absurd (hfull.symm.trans_le hbody) (Nat.not_le.mpr hlimit)
  | bodyDone hge hdata hfull =>
      rw [readCount_body hp hge] at hcount
      have hbody : c.readBodyLength ≤ c.readBuffer.length := hp.body_le
      exact at_overwrite hp hge (Nat.add_le_of_le_sub' hbody hcount) fun _ => hfull
  | body hge hdata hmore =>
      have hbody : c.readBodyLength ≤ c.readBuffer.length := hp.body_le
      refine at_overwrite hp hge (Nat.add_le_of_le_sub' hbody (readCount_body hp hge ▸ hcount)) fun h => ?_
      -- A reader with a whole frame would have asked for no bytes.
      rw [readCount_eq_zero hp (hp.full_of_ready h)] at hcount
      exact absurd (List.eq_nil_of_length_eq_zero (Nat.le_zero.mp hcount)) hdata

/-- **The loop ends with a whole frame only when it reports one**, if a `read` that asks for nothing
does not fail. -/
theorem full_readNonBlocking (hp : c.reader.At r) {res : ReadResult}
    (hlegal : ∀ errno, res = .error errno → c.readCount = 0 → errno = .eintr)
    (hfull : (c.readNonBlocking res).1.reader.Full) :
    (c.readNonBlocking res).1.readyToHandleMessage = true ∨
      Op.readNonBlocking ∈ (c.readNonBlocking res).2 := by
  have hpass := c.pass res
  generalize c.readNonBlocking res = out at hpass hfull ⊢
  cases hpass with
  | interrupted | header | headerDone | body => exact .inr List.mem_cons_self
  | bodyEmpty | bodyDone => exact .inl rfl
  | again hagain =>
      obtain rfl := hlegal _ rfl (readCount_eq_zero hp hfull)
      cases hagain
  | failed => cases hlegal _ rfl (readCount_eq_zero hp hfull)
  | headerEnd hlt => exact absurd hfull.1 (Nat.ne_of_lt hlt)
  | oversized _ _ _ _ hlimit =>
      have hbody := hp.body_le.trans hp.size_le
      exact absurd hbody (Nat.not_le.mpr (hlimit.trans_eq hfull.2.symm))
  | bodyEnd _ hmore => exact absurd hfull.2 hmore

/-- The reader stands behind a header that announces too much. -/
def overlong (c : Connection) : Prop :=
  c.readTlvHeaderLength = tlvHeaderLength ∧ maxTlvLength < c.tlvHeader.length.toNat

/-- **The loop closes the connection** at a header that announces too much, and at the end of the
stream. -/
theorem close_readNonBlocking (hp : c.reader.At r) {res : ReadResult}
    (hend : (0 < c.readCount ∧ res = .data []) ∨
      ¬c.overlong ∧ (c.readNonBlocking res).1.overlong) :
    Op.handleClose ∈ (c.readNonBlocking res).2 := by
  have hpass := c.pass res
  generalize c.readNonBlocking res = out at hpass hend ⊢
  cases hpass with
  | failed | headerEnd | oversized | bodyEnd => exact List.mem_cons_self
  | interrupted | again =>
      obtain ⟨-, hres⟩ | ⟨hnot, hover⟩ := hend
      · cases hres
      · exact absurd hover hnot
  | header hlt hdata hmore =>
      obtain ⟨-, hres⟩ | ⟨-, hover⟩ := hend
      · exact absurd (ReadResult.data.inj hres) hdata
      · exact absurd hover.1 hmore
  | headerDone hlt hdata _ _ hlimit =>
      obtain ⟨-, hres⟩ | ⟨-, hover⟩ := hend
      · exact absurd (ReadResult.data.inj hres) hdata
      · exact absurd hlimit (Nat.not_le.mpr hover.2)
  | bodyEmpty hge hfull =>
      obtain ⟨hpos, -⟩ | ⟨hnot, hover⟩ := hend
      · exact absurd (readCount_eq_zero hp ⟨header_eq hp hge, hfull⟩) (Nat.ne_of_gt hpos)
      · exact absurd hover hnot
  | bodyDone _ hdata | body _ hdata =>
      obtain ⟨-, hres⟩ | ⟨hnot, hover⟩ := hend
      · exact absurd (ReadResult.data.inj hres) hdata
      · exact absurd hover hnot

theorem overlong_of_oversized (hp : c.reader.At r) (hover : Oversized tlv r) : c.overlong := by
  cases hp.parsing with
  | header hlen hlt => exact absurd hover.1 (Nat.not_le.mpr hlt)
  | body hlen hlimit hsize hbytes =>
      have htake : r.take tlv.headerLength = c.tlvHeader.wire := by
        rw [hbytes]
        exact List.take_left' c.tlvHeader.length_wire
      have hannounced := hover.2
      rw [htake, bodyLength_wire] at hannounced
      exact absurd hannounced (Nat.not_lt.mpr hlimit)
  | oversized hlen hlimit => exact ⟨hlen, hlimit⟩

end Connection

end EpollServer
