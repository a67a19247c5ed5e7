import EpollServer.Lib.CInt
import EpollServer.Lib.Slice

/-!
# The send buffer

`Buffer` of `buffer.h`: a vector of bytes with a read and a write index, both `int`. The bytes between
the indices are the ones still to be sent; storage in front of and behind them is stale. `Buffer.Ok` is
the class invariant, and under it every operation is the one of a FIFO queue on `Buffer.readable`.
-/

namespace EpollServer

/-- `DEFAULT_INIT_SIZE`. -/
def defaultInitSize : Nat := 256

structure Buffer where
  buffer : List UInt8
  readIndex : Int
  writeIndex : Int
  deriving DecidableEq, Repr

namespace Buffer

/-- The constructor. -/
def new : Buffer where
  buffer := List.replicate defaultInitSize 0
  readIndex := 0
  writeIndex := 0

def readableBytes (b : Buffer) : Int := b.writeIndex - b.readIndex

def writableBytes (b : Buffer) : Int := CInt.ofSize b.buffer.length - b.writeIndex

/-- The bytes from `Peek()` up to `readablebytes()`. -/
def readable (b : Buffer) : List UInt8 :=
  Slice.window b.buffer b.readIndex.toNat b.writeIndex.toNat

/-- `none` when `write_index_ + len` overflows or is no vector size. -/
def ensureWritableBytes (b : Buffer) (len : Int) : Option Buffer :=
  if len ≤ b.writableBytes then some b
  else do
    let size ← CInt.check (b.writeIndex + len)
    if 0 ≤ size then some { b with buffer := Slice.resize b.buffer size.toNat 0 } else none

/-- `message` is what the pointer argument points to. `none` stands for undefined behaviour: a signed
overflow, a source range that is no range of `message`, or a copy that leaves `buffer_`. -/
def append (b : Buffer) (message : List UInt8) (len : Int) : Option Buffer := do
  let b ← b.ensureWritableBytes len
  if 0 ≤ len ∧ len ≤ message.length ∧ 0 ≤ b.writeIndex ∧ b.writeIndex + len ≤ b.buffer.length then do
    let writeIndex ← CInt.check (b.writeIndex + len)
    some { b with
      buffer := Slice.overwrite b.buffer b.writeIndex.toNat (message.take len.toNat)
      writeIndex := writeIndex }
  else none

def retrieveAll (b : Buffer) : Buffer := { b with readIndex := 0, writeIndex := 0 }

def retrieve (b : Buffer) (len : Int) : Option Buffer := do
  let readIndex ← CInt.check (len + b.readIndex)
  if readIndex < b.writeIndex then some { b with readIndex := readIndex } else some b.retrieveAll

/-- The calls that change a buffer. -/
inductive Operation where
  | append (message : List UInt8) (len : Int)
  | retrieve (len : Int)
  | retrieveAll
  | ensureWritableBytes (len : Int)
  deriving DecidableEq, Repr

def step (b : Buffer) : Operation → Option Buffer
  | .append message len => b.append message len
  | .retrieve len => b.retrieve len
  | .retrieveAll => some b.retrieveAll
  | .ensureWritableBytes len => b.ensureWritableBytes len

/-- The class invariant: the indices are ordered and inside the storage, the storage is addressable
with an `int`, and an empty buffer has both indices at zero. -/
structure Ok (b : Buffer) : Prop where
  readIndex_nonneg : 0 ≤ b.readIndex
  readIndex_le : b.readIndex ≤ b.writeIndex
  writeIndex_le : b.writeIndex ≤ b.buffer.length
  length_le : (b.buffer.length : Int) ≤ CInt.max
  reset : b.readIndex = b.writeIndex → b.writeIndex = 0

variable {b b' : Buffer}

theorem ok_new : new.Ok where
  readIndex_nonneg := Int.le_refl 0
  readIndex_le := Int.le_refl 0
  writeIndex_le := Int.natCast_nonneg _
  length_le := by
    rw [new, List.length_replicate, defaultInitSize, CInt.max]
    omega
  reset := fun _ => rfl

@[simp]
theorem readable_new : new.readable = [] := rfl

@[simp]
theorem writeIndex_new : new.writeIndex = 0 := rfl

theorem Ok.length_readable (hb : b.Ok) : (b.readable.length : Int) = b.readableBytes := by
  have h₁ := hb.readIndex_nonneg
  have h₂ := hb.readIndex_le
  have h₃ := hb.writeIndex_le
  rw [readable, Slice.length_window (by omega), readableBytes]
  omega

theorem Ok.readable_eq_nil_iff (hb : b.Ok) : b.readable = [] ↔ b.readableBytes = 0 := by
  rw [← List.length_eq_zero_iff, ← hb.length_readable]
  omega

theorem Ok.writableBytes_eq (hb : b.Ok) : b.writableBytes = b.buffer.length - b.writeIndex := by
  rw [writableBytes, CInt.ofSize_eq hb.length_le]

/-- Growing the storage keeps the invariant, the indices and the queue, and makes room. -/
theorem Ok.ensureWritableBytes_spec (hb : b.Ok) {len : Int}
    (hmax : b.writeIndex + len ≤ CInt.max) :
    ∃ b', b.ensureWritableBytes len = some b' ∧ b'.Ok ∧ b'.readable = b.readable ∧
      b'.readIndex = b.readIndex ∧ b'.writeIndex = b.writeIndex ∧
      b.writeIndex + len ≤ b'.buffer.length := by
  have h₁ := hb.readIndex_nonneg
  have h₂ := hb.readIndex_le
  have h₃ := hb.writeIndex_le
  have hroom := hb.writableBytes_eq
  by_cases hfits : len ≤ b.writableBytes
  · refine ⟨b, by rw [ensureWritableBytes, if_pos hfits], hb, rfl, rfl, rfl, ?_⟩
    omega
  · refine ⟨{ b with buffer := Slice.resize b.buffer (b.writeIndex + len).toNat 0 }, ?_, ?_, ?_, rfl,
      rfl, ?_⟩
    · rw [ensureWritableBytes, if_neg hfits, CInt.check_of_le (by omega) hmax, Option.bind_eq_bind,
        Option.bind_some, if_pos (by omega)]
    · constructor
      · exact h₁
      · exact h₂
      · dsimp only
        rw [Slice.length_resize]
        omega
      · dsimp only
        rw [Slice.length_resize]
        omega
      · exact hb.reset
    · rw [readable, readable]
      dsimp only
      exact Slice.window_resize (by omega) (by omega)
    · rw [Slice.length_resize]
      omega

/-- **`Append` enqueues.** When the end of the new data is representable, the call is defined. -/
theorem Ok.append_spec (hb : b.Ok) (message : List UInt8) (len : Int) (h0 : 0 ≤ len)
    (hlen : len ≤ message.length) (hmax : b.writeIndex + len ≤ CInt.max) :
    ∃ b', b.append message len = some b' ∧ b'.Ok ∧
      b'.readable = b.readable ++ message.take len.toNat ∧ b'.writeIndex = b.writeIndex + len := by
  obtain ⟨g, hg, hok, hread, hindex, hwrite, hroom⟩ := hb.ensureWritableBytes_spec hmax
  have h₁ := hok.readIndex_nonneg
  have h₂ := hok.readIndex_le
  have h₃ := hok.writeIndex_le
  have htake : (message.take len.toNat).length = len.toNat := by
    rw [List.length_take]
    omega
  have hend : (g.writeIndex + len).toNat = g.writeIndex.toNat + (message.take len.toNat).length := by
    omega
  have hover : (Slice.overwrite g.buffer g.writeIndex.toNat (message.take len.toNat)).length
      = g.buffer.length := Slice.length_overwrite (by omega)
  refine ⟨{ g with
    buffer := Slice.overwrite g.buffer g.writeIndex.toNat (message.take len.toNat)
    writeIndex := g.writeIndex + len }, ?_, ?_, ?_, by simp only [hwrite]⟩
  · rw [append, hg, Option.bind_eq_bind, Option.bind_some, if_pos (by omega),
      CInt.check_of_le (by omega) (by omega)]
    rfl
  · constructor
    · exact h₁
    · change g.readIndex ≤ g.writeIndex + len
      omega
    · change g.writeIndex + len ≤ (Slice.overwrite _ _ _).length
      rw [hover]
      omega
    · change ((Slice.overwrite _ _ _).length : Int) ≤ CInt.max
      rw [hover]
      exact hok.length_le
    · intro heq
      dsimp only at heq ⊢
      have hzero := hok.reset (by omega)
      omega
  · rw [← hread, readable, readable]
    dsimp only
    rw [hend, Slice.window_overwrite (by omega) (by omega)]

theorem writeIndex_of_ensureWritableBytes {len : Int} (h : b.ensureWritableBytes len = some b') :
    b'.writeIndex = b.writeIndex ∧ (len ≤ b.writableBytes ∨ b.writeIndex + len ≤ CInt.max) := by
  unfold ensureWritableBytes at h
  split at h
  · rename_i hfits
    cases h
    exact ⟨rfl, .inl hfits⟩
  · obtain ⟨size, hcheck, h⟩ := Option.bind_eq_some_iff.mp h
    split at h
    · cases h
      exact ⟨rfl, .inr (CInt.check_eq_some_iff.mp hcheck).1.2⟩
    · cases h

theorem Ok.room_of_ensureWritableBytes (hb : b.Ok) {len : Int}
    (h : b.ensureWritableBytes len = some b') : b.writeIndex + len ≤ CInt.max := by
  have hlength := hb.length_le
  have hroom := hb.writableBytes_eq
  rcases (writeIndex_of_ensureWritableBytes h).2 with hfits | hmax
  · omega
  · exact hmax

/-- A call of `Append` that is defined copies a range of the message, to representable positions. -/
theorem range_of_append {message : List UInt8} {len : Int} (h : b.append message len = some b') :
    0 ≤ len ∧ len ≤ message.length ∧ b.writeIndex + len ≤ CInt.max := by
  obtain ⟨g, hg, h⟩ := Option.bind_eq_some_iff.mp h
  obtain ⟨hrange, h⟩ := Option.ite_none_right_eq_some.mp h
  obtain ⟨w, hw, -⟩ := Option.bind_eq_some_iff.mp h
  have hmax := (CInt.check_eq_some_iff.mp hw).1.2
  rw [(writeIndex_of_ensureWritableBytes hg).1] at hmax
  exact ⟨hrange.1, hrange.2.1, hmax⟩

/-- Whatever its arguments, a call of `Append` that is defined enqueues. -/
theorem Ok.of_append (hb : b.Ok) {message : List UInt8} {len : Int}
    (h : b.append message len = some b') :
    b'.Ok ∧ b'.readable = b.readable ++ message.take len.toNat ∧
      b'.writeIndex = b.writeIndex + len := by
  obtain ⟨h0, hlen, hmax⟩ := range_of_append h
  obtain ⟨b'', h', hspec⟩ := hb.append_spec message len h0 hlen hmax
  rw [h] at h'
  cases h'
  exact hspec

theorem Ok.retrieveAll (hb : b.Ok) : b.retrieveAll.Ok where
  readIndex_nonneg := Int.le_refl 0
  readIndex_le := Int.le_refl 0
  writeIndex_le := Int.natCast_nonneg _
  length_le := hb.length_le
  reset := fun _ => rfl

@[simp]
theorem readable_retrieveAll (b : Buffer) : b.retrieveAll.readable = [] := Slice.window_self _ _

/-- **`Retrieve` dequeues.** A count beyond the queue takes all of it. -/
theorem Ok.retrieve_spec (hb : b.Ok) {len : Int} (h0 : 0 ≤ len)
    (hmax : len + b.readIndex ≤ CInt.max) :
    ∃ b', b.retrieve len = some b' ∧ b'.Ok ∧ b'.readable = b.readable.drop len.toNat ∧
      b'.writeIndex ≤ b.writeIndex ∧ (b'.readable ≠ [] → b'.writeIndex = b.writeIndex) := by
  have h₁ := hb.readIndex_nonneg
  have h₂ := hb.readIndex_le
  have h₃ := hb.writeIndex_le
  have hcheck : CInt.check (len + b.readIndex) = some (len + b.readIndex) :=
    CInt.check_of_le (by omega) hmax
  by_cases hlt : len + b.readIndex < b.writeIndex
  · refine ⟨{ b with readIndex := len + b.readIndex }, ?_, ?_, ?_, Int.le_refl _, fun _ => rfl⟩
    · rw [retrieve, hcheck, Option.bind_eq_bind, Option.bind_some, if_pos hlt]
    · constructor
      · change 0 ≤ len + b.readIndex
        omega
      · change len + b.readIndex ≤ b.writeIndex
        omega
      · exact h₃
      · exact hb.length_le
      · intro heq
        change len + b.readIndex = b.writeIndex at heq
        omega
    · rw [readable, readable, Slice.drop_window]
      change Slice.window _ (len + b.readIndex).toNat _ = _
      congr 1
      omega
  · refine ⟨b.retrieveAll, ?_, hb.retrieveAll, ?_, Int.le_trans h₁ h₂,
      fun h => absurd b.readable_retrieveAll h⟩
    · rw [retrieve, hcheck, Option.bind_eq_bind, Option.bind_some, if_neg hlt]
    · have hlength := hb.length_readable
      rw [readableBytes] at hlength
      rw [readable_retrieveAll, List.drop_eq_nil_of_le (by omega)]

theorem Ok.retrieve_of_le (hb : b.Ok) {n : Nat} (hn : n ≤ b.readable.length) :
    ∃ b', b.retrieve n = some b' ∧ b'.Ok ∧ b'.readable = b.readable.drop n ∧
      b'.writeIndex ≤ b.writeIndex ∧ (b'.readable ≠ [] → b'.writeIndex = b.writeIndex) := by
  have h₁ := hb.writeIndex_le
  have h₂ := hb.length_le
  have hlength := hb.length_readable
  rw [readableBytes] at hlength
  exact hb.retrieve_spec (Int.natCast_nonneg n) (by omega)

theorem Ok.of_retrieve (hb : b.Ok) {n : Nat} (hn : n ≤ b.readable.length)
    (h : b.retrieve n = some b') :
    b'.Ok ∧ b'.readable = b.readable.drop n ∧ b'.writeIndex ≤ b.writeIndex := by
  obtain ⟨b'', h', hok, hread, hwrite, -⟩ := hb.retrieve_of_le hn
  rw [h] at h'
  cases h'
  exact ⟨hok, hread, hwrite⟩

end Buffer

end EpollServer
