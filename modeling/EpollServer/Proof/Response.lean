import EpollServer.Proof.Package

/-!
# What the clients' response check detects

`hashVector` is the bitwise and of all bytes, and the header of a packet has a zero byte, so the hash of every
packet is zero. The response is read over the packet and the hash compared is that of the vector that nothing
was read into: the check never looks at a byte of the response, only at their number.
-/

namespace EpollServer

namespace Client

variable {order : Order} {messageSize : Nat} {packet response : List UInt8}

/-- No bit is set in all the bytes. -/
def NoCommonBit (bytes : List UInt8) : Prop := ∀ k < 8, ∃ b ∈ bytes, b.toNat.testBit k = false

theorem testBit_foldl_and (bytes : List UInt8) (b : UInt8) (k : Nat) :
    (bytes.foldl (· &&& ·) b).toNat.testBit k
      = (b.toNat.testBit k && bytes.all fun b => b.toNat.testBit k) := by
  induction bytes generalizing b with
  | nil => simp
  | cons b' bytes ih =>
      rw [List.foldl_cons, ih, UInt8.toNat_and, Nat.testBit_and, List.all_cons, Bool.and_assoc]

/-- A bit of the hash is set if it is set in every byte. -/
theorem testBit_hashVector {bytes : List UInt8} (hne : bytes ≠ []) (k : Nat) :
    (hashVector bytes).toNat.testBit k = bytes.all fun b => b.toNat.testBit k := by
  cases bytes with
  | nil => exact absurd rfl hne
  | cons b bytes =>
      rw [hashVector, testBit_foldl_and]
      rfl

theorem hashVector_eq_zero_iff {bytes : List UInt8} (hne : bytes ≠ []) :
    hashVector bytes = 0 ↔ NoCommonBit bytes := by
  constructor
  · intro hzero k hk
    have hbit := testBit_hashVector hne k
    rw [hzero] at hbit
    simpa using hbit
  · intro hcommon
    apply UInt8.toNat_inj.mp
    apply Nat.eq_of_testBit_eq
    intro k
    by_cases hk : k < 8
    · obtain ⟨b, hb, hbit⟩ := hcommon k hk
      rw [testBit_hashVector hne]
      simpa using ⟨b, hb, hbit⟩
    · have hlt : (hashVector bytes).toNat < 2 ^ k := (hashVector bytes).toNat_lt.trans_le
        (Nat.pow_le_pow_right (by decide) (Nat.le_of_not_lt hk))
      rw [Nat.testBit_lt_two_pow hlt]
      simp

theorem hashVector_eq_zero_of_mem {bytes : List UInt8} (hzero : 0 ∈ bytes) : hashVector bytes = 0 :=
  (hashVector_eq_zero_iff (List.ne_nil_of_mem hzero)).mpr fun k _ => ⟨0, hzero, by simp⟩

/-- **The hash of a packet does not depend on its body.** -/
theorem hashVector_packet (length : Nat) (body : List UInt8) :
    hashVector ((stringHeader length).wire ++ body) = 0 :=
  have hzero : (0 : UInt8) ∈ Word32.toBE tlvString := by decide
  hashVector_eq_zero_of_mem (List.mem_append_left _ (List.mem_append_left _ hzero))

/-- The request was sent whole, and as many bytes came back. -/
def FullLength (messageSize : Nat) (written : WriteResult) (response : ReadResult) : Prop :=
  written = .accepted (messageSize + tlvHeaderLength) ∧
    bytesReceived response = (messageSize + tlvHeaderLength : Nat)

instance (messageSize : Nat) (written : WriteResult) (response : ReadResult) :
    Decidable (FullLength messageSize written response) :=
  inferInstanceAs (Decidable (_ ∧ _))

/-- **The check looks at lengths only.** -/
theorem exchange_eq (hpacket : hashVector packet = 0) (written : WriteResult) (r : ReadResult) :
    exchange messageSize packet written r = decide (FullLength messageSize written r) := by
  have hreceived : hashVector (List.replicate (messageSize + tlvHeaderLength) 0) = 0 :=
    hashVector_eq_zero_of_mem (by simp [tlvHeaderLength])
  rw [exchange]
  simp only [Buffers.read, hpacket, hreceived, ne_eq, not_true, or_false]
  split
  · rename_i hwritten
    exact (decide_eq_false fun hfull => hwritten hfull.1).symm
  · rename_i hwritten
    split
    · rename_i hreturned
      exact (decide_eq_false fun hfull => hreturned hfull.2).symm
    · rename_i hreturned
      exact (decide_eq_true ⟨not_not.mp hwritten, not_not.mp hreturned⟩).symm

theorem hashVector_of_generated (hpacket : generateRandomPackage order messageSize = some packet) :
    hashVector packet = 0 := by
  obtain ⟨-, rfl⟩ := generateRandomPackage_eq_some_iff.mp hpacket
  exact hashVector_packet _ _

/-- `client.cpp` counts every request that gets a response of the right length. -/
theorem counters_clientThread {attempts : List Attempt} {c c' : Counters}
    (h : clientThread order attempts c = some c') :
    c'.totalRequests = c.totalRequests + attempts.length ∧
      c'.successfulRequests = c.successfulRequests + attempts.countP fun a =>
        a.connects && decide (FullLength (a.ms % maxMessageSize) a.written a.response) := by
  induction attempts generalizing c with
  | nil =>
      obtain rfl : c = c' := Option.some.inj h
      exact ⟨rfl, rfl⟩
  | cons a attempts ih =>
      obtain ⟨packet, hpacket, h⟩ := Option.bind_eq_some_iff.mp h
      rw [exchange_eq (hashVector_of_generated hpacket)] at h
      rw [List.length_cons, List.countP_cons]
      split at h
      · rename_i hcounts
        obtain ⟨htotal, hsuccessful⟩ := ih h
        dsimp only at htotal hsuccessful
        rw [if_pos hcounts]
        exact ⟨by omega, by omega⟩
      · rename_i hfails
        obtain ⟨htotal, hsuccessful⟩ := ih h
        dsimp only at htotal hsuccessful
        rw [if_neg hfails]
        exact ⟨by omega, by omega⟩

/-- `client_longconn.cpp` counts the requests before the first one without such a response. -/
theorem counters_requests {attempts : List Attempt} {c c' : Counters}
    (h : LongClient.requests order attempts c = some c') :
    c'.successfulRequests = c.successfulRequests + (attempts.takeWhile fun a =>
      decide (FullLength (a.ms % LongClient.maxMessageSize) a.written a.response)).length := by
  induction attempts generalizing c with
  | nil =>
      obtain rfl : c = c' := Option.some.inj h
      rfl
  | cons a attempts ih =>
      obtain ⟨packet, hpacket, h⟩ := Option.bind_eq_some_iff.mp h
      rw [exchange_eq (hashVector_of_generated hpacket)] at h
      rw [List.takeWhile_cons]
      split at h
      · rename_i hcounts
        have hsuccessful := ih h
        dsimp only at hsuccessful
        rw [if_pos hcounts, List.length_cons]
        omega
      · rename_i hfails
        obtain rfl := Option.some.inj h
        rw [if_neg hfails]
        rfl

/-- The check is sound for a packet and the response to it: the request counts as successful only if the
hashes are equal, and for a packet with a body there is one with another body and another hash. -/
def CheckSound (messageSize : Nat) (packet response : List UInt8) : Prop :=
  (∀ written, exchange messageSize packet written (.data response) = true →
    hashVector response = hashVector packet) ∧
  (1 ≤ messageSize → ∃ body body' : List UInt8, body.length = messageSize ∧ body'.length = messageSize ∧
    body ≠ body' ∧ hashVector ((stringHeader messageSize).wire ++ body)
      ≠ hashVector ((stringHeader messageSize).wire ++ body'))

theorem CheckSound.hash_eq {written : WriteResult} (hs : CheckSound messageSize packet response)
    (hpacket : generateRandomPackage order messageSize = some packet)
    (hfull : FullLength messageSize written (.data response)) : hashVector response = hashVector packet := by
  refine hs.1 written ?_
  rw [exchange_eq (hashVector_of_generated hpacket)]
  exact decide_eq_true hfull

/-- Where the check is sound for a response, `client.cpp` counts the request only if the hashes are equal. -/
theorem CheckSound.of_clientThread {a : Attempt} {c c' : Counters}
    (hs : CheckSound (a.ms % maxMessageSize) packet response) (hresponse : a.response = .data response)
    (hpacket : generateRandomPackage order (a.ms % maxMessageSize) = some packet)
    (h : clientThread order [a] c = some c') (hcounted : c.successfulRequests < c'.successfulRequests) :
    hashVector response = hashVector packet := by
  rw [(counters_clientThread h).2] at hcounted
  have hfull : FullLength (a.ms % maxMessageSize) a.written a.response := by
    by_contra hlength
    simp [hlength] at hcounted
  exact hs.hash_eq hpacket (hresponse ▸ hfull)

/-- So does `client_longconn.cpp`. -/
theorem CheckSound.of_requests {a : Attempt} {c c' : Counters}
    (hs : CheckSound (a.ms % LongClient.maxMessageSize) packet response) (hresponse : a.response = .data response)
    (hpacket : generateRandomPackage order (a.ms % LongClient.maxMessageSize) = some packet)
    (h : LongClient.requests order [a] c = some c') (hcounted : c.successfulRequests < c'.successfulRequests) :
    hashVector response = hashVector packet := by
  rw [counters_requests h] at hcounted
  have hfull : FullLength (a.ms % LongClient.maxMessageSize) a.written a.response := by
    by_contra hlength
    simp [hlength] at hcounted
  exact hs.hash_eq hpacket (hresponse ▸ hfull)

theorem CheckSound.noCommonBit (hs : CheckSound messageSize packet response)
    (hpacket : generateRandomPackage order messageSize = some packet)
    (hlength : response.length = messageSize + tlvHeaderLength) : messageSize = 0 ∧ NoCommonBit response := by
  have hne : response ≠ [] := List.ne_nil_of_length_pos (by rw [hlength, tlvHeaderLength]; omega)
  refine ⟨?_, (hashVector_eq_zero_iff hne).mp ?_⟩
  · by_contra hpos
    obtain ⟨body, body', -, -, -, hdiffer⟩ := hs.2 (Nat.one_le_iff_ne_zero.mpr hpos)
    exact hdiffer ((hashVector_packet _ _).trans (hashVector_packet _ _).symm)
  · calc hashVector response
      _ = hashVector packet := hs.hash_eq hpacket ⟨rfl, congrArg Nat.cast hlength⟩
      _ = 0 := hashVector_of_generated hpacket

/-- **The check is sound** only for packets without a body, and then for responses whose bytes have no bit in
common. So there is no length for which it is sound whatever the response is. -/
theorem checkSound_iff (hpacket : generateRandomPackage order messageSize = some packet) :
    (∀ response : List UInt8, response.length = messageSize + tlvHeaderLength →
      (CheckSound messageSize packet response ↔ messageSize = 0 ∧ NoCommonBit response)) ∧
    ∃ response : List UInt8, response.length = messageSize + tlvHeaderLength ∧
      ¬CheckSound messageSize packet response := by
  refine ⟨fun response hlength => ⟨fun hs => hs.noCommonBit hpacket hlength, ?_⟩,
    List.replicate (messageSize + tlvHeaderLength) 255, List.length_replicate, fun hs => ?_⟩
  · rintro ⟨rfl, hcommon⟩
    have hne : response ≠ [] := List.ne_nil_of_length_pos (by rw [hlength, tlvHeaderLength]; omega)
    refine ⟨fun _ _ => ?_, fun hpos => absurd hpos (by decide)⟩
    rw [(hashVector_eq_zero_iff hne).mpr hcommon, hashVector_of_generated hpacket]
  · obtain ⟨-, hcommon⟩ := hs.noCommonBit hpacket List.length_replicate
    obtain ⟨b, hb, hbit⟩ := hcommon 0 (by decide)
    obtain rfl := List.eq_of_mem_replicate hb
    exact absurd hbit (by decide)

/-- Each bit is missing in one of the bytes of the response; that is enough for an empty message only. -/
theorem checkSound_iff_mixed : CheckSound 0 [0, 0, 0, 0, 0, 0, 0, 0] [254, 253, 251, 247, 239, 223, 191, 127] ∧
    ¬CheckSound 1 [0, 0, 0, 0, 0, 0, 0, 1, 48] [254, 253, 251, 247, 239, 223, 191, 127, 48] := by
  have hempty : generateRandomPackage .leftFirst 0 = some [0, 0, 0, 0, 0, 0, 0, 0] := by decide
  have hbyte : generateRandomPackage .leftFirst 1 = some [0, 0, 0, 0, 0, 0, 0, 1, 48] := by decide
  refine ⟨((checkSound_iff hempty).1 _ rfl).mpr ⟨rfl, by unfold NoCommonBit; decide⟩, fun hs => ?_⟩
  exact absurd (((checkSound_iff hbyte).1 _ rfl).mp hs).1 (by decide)

/-- A response of nine bytes 255 to a packet with one byte of body is counted. -/
theorem unsound_check : ¬∀ order messageSize packet response,
    generateRandomPackage order messageSize = some packet →
      response.length = messageSize + tlvHeaderLength → CheckSound messageSize packet response := by
  intro h
  have hpacket : generateRandomPackage .leftFirst 1 = some [0, 0, 0, 0, 0, 0, 0, 1, 48] := by decide
  have hcounts : clientThread .leftFirst [⟨1, true, .accepted 9, .data (List.replicate 9 255)⟩] ⟨0, 0⟩
      = some ⟨1, 1⟩ := by
    decide
  have hs := h .leftFirst 1 _ (List.replicate 9 255) hpacket rfl
  have hhash := CheckSound.of_clientThread (a := ⟨1, true, .accepted 9, .data (List.replicate 9 255)⟩)
    hs rfl hpacket hcounts (by decide)
  exact absurd hhash (by decide)

end Client

end EpollServer
