import EpollServer.Proof.Delivery

/-!
# The reader stays inside its buffers

Whatever `read` returns, and whatever has become of the connection: the counts that `ReadNonBlocking` asks
for do not wrap around, and the bytes that come go where there is room for them. Behind a header that
announces too much the reader may go on to read, into a buffer of another size, but delivers nothing.
-/

namespace EpollServer

namespace Connection

variable {c : Connection} {r : List UInt8}

/-- The next `read` stays inside the header object, or inside the read buffer. -/
structure Contained (c : Connection) : Prop where
  header_le : c.readTlvHeaderLength ≤ tlvHeaderLength
  header_room : c.readTlvHeaderLength < tlvHeaderLength →
    c.readTlvHeaderLength + c.readCount = tlvHeaderLength
  body_le : c.readBodyLength ≤ c.readBuffer.length
  size_le : c.readBuffer.length ≤ maxTlvLength
  body_room : c.readTlvHeaderLength = tlvHeaderLength →
    c.readBodyLength + c.readCount = c.readBuffer.length
  size_eq : c.readTlvHeaderLength = tlvHeaderLength → c.tlvHeader.length.toNat ≤ maxTlvLength →
    c.readBuffer.length = c.tlvHeader.length.toNat

theorem contained (hp : c.reader.At r) : c.Contained := by
  have hbody : c.readBodyLength ≤ c.readBuffer.length := hp.body_le
  have hheader : c.readTlvHeaderLength ≤ tlvHeaderLength := by
    cases hp.parsing with
    | header hlen hlt => exact (hlen.trans_lt hlt).le
    | body hlen | oversized hlen => exact hlen.le
  refine ⟨hheader, fun hlt => ?_, hbody, hp.size_le, fun hlen => ?_, fun hlen hlimit => ?_⟩
  · rw [readCount, if_pos hlt]
    omega
  · rw [readCount_body hp hlen.ge]
    omega
  · cases hp.parsing with
    | header hlen' hlt => exact absurd (hlen.symm.trans hlen') (Nat.ne_of_gt hlt)
    | body _ _ hsize => exact hsize
    | oversized _ hlimit' => exact absurd hlimit (Nat.not_le.mpr hlimit')

theorem overlong_readNonBlocking (hover : c.overlong) (res : ReadResult) :
    (c.readNonBlocking res).1.overlong := by
  have hpass := c.pass res
  generalize c.readNonBlocking res = out at hpass ⊢
  cases hpass with
  | header hlt | oversized hlt | headerDone hlt => exact absurd hlt hover.1.not_lt
  | _ => exact hover

theorem not_ready_of_overlong (hp : c.reader.At r) (hover : c.overlong) :
    c.readyToHandleMessage = false := by
  cases hp.parsing with
  | header hlen hlt => exact absurd (hover.1.symm.trans hlen) (Nat.ne_of_gt hlt)
  | body _ hlimit => exact absurd hlimit (Nat.not_le.mpr hover.2)
  | oversized _ _ _ hready => exact hready

theorem not_full_of_overlong (hp : c.reader.At r) (hover : c.overlong) : ¬c.reader.Full := by
  intro hfull
  have hbody : c.readBodyLength ≤ c.readBuffer.length := hp.body_le
  have hsize : c.readBuffer.length ≤ maxTlvLength := hp.size_le
  have hlength : c.readBodyLength = c.tlvHeader.length.toNat := hfull.2
  have hlimit := hover.2
  omega

theorem readNonBlocking_nil (hp : c.reader.At r) (hfull : ¬c.reader.Full) :
    c.readNonBlocking (.data []) = (c, [.handleClose]) := by
  have hpass := c.pass (.data [])
  generalize c.readNonBlocking (.data []) = out at hpass ⊢
  cases hpass with
  | headerEnd | bodyEnd => rfl
  | bodyEmpty hge hbody => exact absurd ⟨header_eq hp hge, hbody⟩ hfull
  | header _ hdata | oversized _ hdata | headerDone _ hdata | bodyDone _ hdata | body _ hdata =>
      exact absurd rfl hdata

/-- A `read` asks for no bytes only when a frame is complete, or behind a header that announces too much. -/
theorem of_readCount_eq_zero (hp : c.reader.At r) (hcount : c.readCount = 0) :
    c.reader.Full ∨ c.overlong := by
  have hcontained := contained hp
  have hlen : c.readTlvHeaderLength = tlvHeaderLength := by
    by_contra hne
    have hroom := hcontained.header_room (Nat.lt_of_le_of_ne hcontained.header_le hne)
    omega
  by_cases hlimit : c.tlvHeader.length.toNat ≤ maxTlvLength
  · have hroom := hcontained.body_room hlen
    rw [hcount, hcontained.size_eq hlen hlimit] at hroom
    exact .inl ⟨hlen, hroom⟩
  · exact .inr ⟨hlen, Nat.lt_of_not_le hlimit⟩

/-- The loop closes the connection at the end of the stream, behind a header that announces too much, or
because a `read` failed. -/
theorem of_close_readNonBlocking {res : ReadResult} (hsoft : res.isHard = false)
    (hclose : Op.handleClose ∈ (c.readNonBlocking res).2) :
    res = .data [] ∧ ¬c.reader.Full ∨ (c.readNonBlocking res).1.overlong := by
  have hpass := c.pass res
  generalize c.readNonBlocking res = out at hpass hclose ⊢
  cases hpass with
  | failed => cases hsoft
  | headerEnd hlt => exact .inl ⟨rfl, fun hfull => absurd hfull.1 (Nat.ne_of_lt hlt)⟩
  | oversized _ _ hcomplete _ hlimit => exact .inr ⟨hcomplete, hlimit⟩
  | bodyEnd _ hmore => exact .inl ⟨rfl, fun hfull => hmore hfull.2⟩
  | interrupted | again | header | headerDone | bodyEmpty | bodyDone | body => simp at hclose

end Connection

namespace Session

variable {s s' t : Session} {label : Label}

/-- Behind a header that announces too much, nothing is delivered and the reader is not reset. -/
theorem overlong_step (hs : s.Reading) (hover : s.conn.overlong) (h : s.step label = some s') :
    s'.conn.overlong ∧ s'.history.seen = s.history.seen := by
  obtain ⟨fs, r, -, hat, hdone, -⟩ := hs
  have hready := Connection.not_ready_of_overlong hat hover
  rcases step_cases h with ⟨-, events, -, rfl⟩ | ⟨-, f, -, rfl⟩ |
    ⟨op, rest, conn, ops, hstack, hexec, rfl⟩
  · exact ⟨hover, rfl⟩
  · exact ⟨hover, rfl⟩
  · have hexec := Op.exec_cases hexec
    have hop : op ≠ .messageDone := by
      rintro rfl
      exact absurd (hready.symm.trans (hdone (hstack ▸ List.mem_cons_self))) Bool.false_ne_true
    by_cases hlabel : label.isReader = true
    · cases hexec with
      | read hcount => exact ⟨Connection.overlong_readNonBlocking hover _, rfl⟩
      | message hmessage =>
          exact absurd (hready.symm.trans (Bool.and_eq_true_iff.mp hmessage).2) Bool.false_ne_true
      | _ => cases hlabel
    · have hlabel : label.isReader = false := Bool.eq_false_iff.mpr hlabel
      have hreader := hexec.reader_eq hlabel hop
      have hlen : conn.readTlvHeaderLength = s.conn.readTlvHeaderLength :=
        congrArg Reader.readTlvHeaderLength hreader
      have hheader : conn.tlvHeader = s.conn.tlvHeader := congrArg Reader.tlvHeader hreader
      refine ⟨?_, (History.record_eq s.history s.conn op hlabel).2.2⟩
      rw [Connection.overlong, hlen, hheader]
      exact hover

/-- **The reader never leaves its buffers**, in any state that any results of `read`, events and calls lead
to, and delivers nothing any more once a header has announced too much. -/
theorem reads_contained (hs : Machine.Reachable Session.step (fun _ _ => True) Built s) :
    s.conn.Contained ∧ (s.conn.overlong →
      ∀ t, Machine.Reachable Session.step (fun _ _ => True) (· = s) t →
        t.conn.overlong ∧ t.history.seen = s.history.seen) := by
  refine ⟨?_, fun hover t ht => ?_⟩
  · obtain ⟨fs, r, -, hat, -⟩ := reading_of_built hs
    exact Connection.contained hat
  · induction ht with
    | init h =>
        subst h
        exact ⟨hover, rfl⟩
    | step ht _ h ih =>
        obtain ⟨hover, hseen⟩ := overlong_step (reading_of_built (hs.trans ht)) ih.1 h
        exact ⟨hover, hseen.trans ih.2⟩

/-- A second header that announces 4097 bytes, in a connection whose buffer holds three. -/
theorem reads_contained_oversized : ∃ s : Session, Machine.Reachable Session.step (fun _ _ => True) Built s ∧
    s.conn.readBuffer.length = 3 ∧ s.conn.tlvHeader.length = 4097 ∧
      s.conn.readBodyLength + s.conn.readCount = 3 := by
  obtain ⟨s, hrun, hlength, hheader, hlen⟩ : ∃ s, Machine.run step (fun _ _ => True)
      (new ((Connection.new 0 5 .invalid false true).setMessageCallback))
      [.event { EpollEvents.none with epollin := true }, .tau,
        .read 8 (.data [0, 0, 0, 0, 0, 0, 0, 3]), .read 3 (.data [1, 2, 3]), .onMessage [], .tau,
        .event { EpollEvents.none with epollin := true }, .tau,
        .read 8 (.data [0, 0, 0, 0, 0, 0, 16]), .read 1 (.data [1]), .tau, .tau,
        .event { EpollEvents.none with epollin := true }, .tau, .read 3 (.data [4, 5])] = some s ∧
      s.conn.readBuffer.length = 3 ∧ s.conn.tlvHeader.length = 4097 ∧
      s.conn.readTlvHeaderLength = tlvHeaderLength := ⟨_, rfl, rfl, rfl, rfl⟩
  have hs : Machine.Reachable Session.step (fun _ _ => True) Built s :=
    .run (.init ⟨rfl, rfl, ⟨rfl, rfl, rfl⟩, by decide⟩) hrun
  exact ⟨s, hs, hlength, hheader, ((reads_contained hs).1.body_room hlen).trans hlength⟩

end Session

end EpollServer
