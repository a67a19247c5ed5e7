import EpollServer.Lib.Framing
import EpollServer.Lib.Word32
import EpollServer.Lib.Slice

/-!
# The TLV header

The packed header of `tlvheader.h`: two `uint32_t` fields, each in network byte order on the wire. The
reader fills the header object byte by byte and then swaps both fields in place, so the object is
modelled with its memory image on a little-endian host.
-/

namespace EpollServer

/-- `sizeof(TLVHeader)`. -/
def tlvHeaderLength : Nat := 8

/-- The longest body the reader accepts. -/
def maxTlvLength : Nat := 4096

/-- `TLVHEADER_TYPE::STRING`. -/
def tlvString : UInt32 := 0

structure TLVHeader where
  type : UInt32
  length : UInt32
  deriving DecidableEq, Repr

/-- Host to network byte order; on a little-endian host it swaps, in both directions. -/
def htonl (x : UInt32) : UInt32 := Word32.swap x

namespace TLVHeader

/-- The memory image of the packed struct. -/
def bytes (header : TLVHeader) : List UInt8 :=
  Word32.toLE header.type ++ Word32.toLE header.length

/-- The struct with a given memory image. -/
def ofBytes (image : List UInt8) : TLVHeader where
  type := Word32.ofLE (image.take 4)
  length := Word32.ofLE (image.drop 4)

/-- Store bytes into the object from an offset on. -/
def store (header : TLVHeader) (offset : Nat) (data : List UInt8) : TLVHeader :=
  ofBytes (Slice.overwrite header.bytes offset data)

/-- Both fields passed through `htonl`. -/
def swapped (header : TLVHeader) : TLVHeader where
  type := htonl header.type
  length := htonl header.length

/-- The fields as they stand on the wire, most significant byte first. -/
def wire (header : TLVHeader) : List UInt8 :=
  Word32.toBE header.type ++ Word32.toBE header.length

@[simp]
theorem length_bytes (header : TLVHeader) : header.bytes.length = tlvHeaderLength := rfl

@[simp]
theorem length_wire (header : TLVHeader) : header.wire.length = tlvHeaderLength := rfl

@[simp]
theorem bytes_swapped (header : TLVHeader) : header.swapped.bytes = header.wire := by
  simp [bytes, swapped, htonl, wire]

theorem bytes_ofBytes {image : List UInt8} (h : image.length = tlvHeaderLength) :
    (ofBytes image).bytes = image := by
  simp only [tlvHeaderLength] at h
  rw [bytes, ofBytes, Word32.toLE_ofLE (by simp; omega), Word32.toLE_ofLE (by simp; omega),
    List.take_append_drop]

/-- Swapping a header that was filled from the wire reads the wire as big-endian. -/
theorem wire_swapped (header : TLVHeader) : header.swapped.wire = header.bytes := by
  simp [wire, swapped, htonl, bytes]

theorem bytes_store {header : TLVHeader} {offset : Nat} {data : List UInt8}
    (h : offset + data.length ≤ tlvHeaderLength) :
    (header.store offset data).bytes = Slice.overwrite header.bytes offset data := by
  rw [store, bytes_ofBytes]
  exact Slice.length_overwrite h

end TLVHeader

/-- The frames on the wire: an eight-byte header whose last four bytes are the length of the body,
big-endian. -/
def tlv : Framing.Format UInt8 where
  headerLength := tlvHeaderLength
  bodyLength := fun header => (Word32.ofBE (header.drop 4)).toNat
  limit := maxTlvLength
  headerLength_pos := by decide

@[simp]
theorem bodyLength_wire (header : TLVHeader) : tlv.bodyLength header.wire = header.length.toNat := by
  have hdrop : header.wire.drop 4 = Word32.toBE header.length := rfl
  simp [tlv, hdrop]

/-- The header that the send functions put in front of a message, in host byte order; the length goes
through the conversion from `size_t` to `uint32_t`. -/
def stringHeader (len : Nat) : TLVHeader where
  type := tlvString
  length := UInt32.ofNat len

/-- The bytes that sending a message is meant to put on the wire. -/
def frameBytes (msg : List UInt8) : List UInt8 := (stringHeader msg.length).wire ++ msg

@[simp]
theorem length_frameBytes (msg : List UInt8) :
    (frameBytes msg).length = tlvHeaderLength + msg.length := by
  simp [frameBytes]

/-- A message short enough for the reader, as a frame. -/
def stringFrame (msg : List UInt8) (h : msg.length ≤ maxTlvLength) : Framing.Frame tlv where
  header := (stringHeader msg.length).wire
  body := msg
  length_header := rfl
  length_body := by
    rw [bodyLength_wire, stringHeader, UInt32.toNat_ofNat', Nat.mod_eq_of_lt]
    simp only [maxTlvLength] at h
    omega
  length_body_le := by
    rw [bodyLength_wire, stringHeader, UInt32.toNat_ofNat']
    exact (Nat.mod_le _ _).trans h

@[simp]
theorem symbols_stringFrame (msg : List UInt8) (h : msg.length ≤ maxTlvLength) :
    (stringFrame msg h).symbols = frameBytes msg := rfl

end EpollServer
