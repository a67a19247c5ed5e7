import EpollServer.Proof.Writing

/-!
# Sender and receiver

The bytes that one connection puts out are read by another one. Both directions rest on the cut of a
stream into frames being unique: the frames sent are the ones that the receiver finds, and a frame of
type STRING is determined by its body.
-/

namespace EpollServer

open Framing

/-- The type that the header of a frame carries. -/
def frameType (f : Frame tlv) : UInt32 := Word32.ofBE (f.header.take 4)

theorem flatMap_frameBytes : ∀ {msgs : List (List UInt8)}, (∀ msg ∈ msgs, msg.length ≤ maxTlvLength) →
    ∃ fs : List (Frame tlv), encode fs = msgs.flatMap frameBytes ∧ fs.map Frame.body = msgs
  | [], _ => ⟨[], rfl, rfl⟩
  | msg :: msgs, h => by
      obtain ⟨hmsg, hmsgs⟩ := List.forall_mem_cons.mp h
      obtain ⟨fs, hencode, hbodies⟩ := flatMap_frameBytes hmsgs
      refine ⟨stringFrame msg hmsg :: fs, ?_, ?_⟩
      · rw [encode_cons, symbols_stringFrame, hencode, List.flatMap_cons]
      · rw [List.map_cons, hbodies]
        rfl

theorem frameBytes_body {f : Frame tlv} (hf : frameType f = tlvString) : frameBytes f.body = f.symbols := by
  have hheader : f.header.length = 8 := f.length_header
  have htype : Word32.toBE tlvString = f.header.take 4 := by
    rw [← hf, frameType, Word32.toBE_ofBE (by simp [hheader])]
  have hlength : Word32.toBE (UInt32.ofNat f.body.length) = f.header.drop 4 := by
    rw [f.length_body]
    change Word32.toBE (UInt32.ofNat (Word32.ofBE (f.header.drop 4)).toNat) = _
    rw [UInt32.ofNat_toNat, Word32.toBE_ofBE (by simp [hheader])]
  rw [frameBytes, TLVHeader.wire, stringHeader, htype, hlength, List.take_append_drop]
  rfl

theorem flatMap_frameBytes_body {fs : List (Frame tlv)} (hfs : ∀ f ∈ fs, frameType f = tlvString) :
    (fs.map Frame.body).flatMap frameBytes = encode fs := by
  rw [List.flatMap_map]
  exact List.flatMap_congr fun f hf => frameBytes_body (hfs f hf)

theorem Reader.At.initial_iff {p : Reader} {r : List UInt8} (hp : p.At r) : p.Initial ↔ r = [] := by
  constructor
  · intro h
    cases hp.parsing with
    | header hlen => exact List.length_eq_zero_iff.mp (hlen.symm.trans h.header)
    | body hlen | oversized hlen => exact absurd (hlen.symm.trans h.header) (by decide)
  · rintro rfl
    cases hp.parsing with
    | header hlen _ _ hbody hready => exact ⟨hlen, hbody, hready⟩
    | body _ _ _ hbytes => exact absurd (congrArg List.length hbytes) (by simp [tlvHeaderLength]; omega)
    | oversized _ _ hbytes => exact absurd hbytes.length_le (by simp [tlvHeaderLength])

namespace Session

variable {a b : Session}

/-- The runs of the sending side: no `write` fails for good. -/
def Soft (_ : Session) (label : Label) : Prop := label.isHard = false

instance (s : Session) (label : Label) : Decidable (Soft s label) := by
  unfold Soft
  infer_instance

theorem wire_of_flushed (ha : Machine.Reachable Session.step Soft Fresh a) (hdone : a.stack = [])
    (hflushed : a.conn.sendBuffer.readable = [])
    (hshort : ∀ msg ∈ a.history.sent, msg.length ≤ maxTlvLength) :
    a.history.wire = a.history.sent.flatMap frameBytes := by
  have hstream := (sending_of_reachable (fun _ _ => keeps_of_soft) ha fun msg hmsg =>
    ofSize_of_short (hshort msg hmsg)).stream
  rwa [hdone, hflushed, List.flatMap_nil, List.append_nil, List.append_nil] at hstream

/-- **Decoding undoes encoding, and encoding undoes decoding.** `a` has put out all it had to send, and
`b` has read. If `b` read what `a` wrote, its callback saw the messages sent and its parser is back in
the initial state. If the parser of `b` is in the initial state after frames of type STRING and `a` sent
what `b` delivered, then `a` wrote what `b` read. -/
theorem roundTrip (ha : Machine.Reachable Session.step Soft Fresh a) (hdone : a.stack = [])
    (hflushed : a.conn.sendBuffer.readable = [])
    (hb : Machine.Reachable Session.step (fun _ label => label.legal) Fresh b)
    (hidle : b.stack = []) :
    ((∀ msg ∈ a.history.sent, msg.length ≤ maxTlvLength) → b.history.consumed = a.history.wire →
        b.history.seen = a.history.sent ∧ b.conn.reader.Initial) ∧
      (b.conn.reader.Initial → (∀ f ∈ (split tlv b.history.consumed).1, frameType f = tlvString) →
        a.history.sent = b.history.seen → a.history.wire = b.history.consumed) := by
  obtain ⟨hat, -, hseen⟩ := idle_of_reachable hb hidle
  refine ⟨fun hshort hbytes => ?_, fun hinitial hstring hsent => ?_⟩
  · obtain ⟨fs, hencode, hbodies⟩ := flatMap_frameBytes hshort
    have hcut : ¬Complete tlv ([] : List UInt8) := fun h => absurd h.1 (by decide)
    have hsplit : split tlv b.history.consumed = (fs, []) := by
      refine split_eq ?_ hcut
      rw [hbytes, wire_of_flushed ha hdone hflushed hshort, hencode, List.append_nil]
    refine ⟨?_, hat.initial_iff.mpr (by rw [hsplit])⟩
    rw [hseen, bodies, hsplit, hbodies]
  · have hshort : ∀ msg ∈ a.history.sent, msg.length ≤ maxTlvLength := fun msg hmsg =>
      length_le_of_mem_bodies (hseen ▸ hsent ▸ hmsg)
    have hrest := hat.initial_iff.mp hinitial
    have hconsumed := encode_split (F := tlv) b.history.consumed
    rw [hrest, List.append_nil] at hconsumed
    rw [wire_of_flushed ha hdone hflushed hshort, hsent, hseen, bodies,
      flatMap_frameBytes_body hstring, hconsumed]

set_option maxRecDepth 10000 in
/-- A message of one byte that arrives in two parts. -/
theorem roundTrip_byte : ∃ a b : Session, Machine.Reachable step Soft Fresh a ∧
    Machine.Reachable step (fun _ label => label.legal) Fresh b ∧ a.history.sent = [[7]] ∧
      (b.history.seen = a.history.sent ∧ b.conn.reader.Initial) ∧ a.history.wire = b.history.consumed := by
  have hfresh := fresh_connectionEstablished 0 5 .invalid false true true
  obtain ⟨a, hrun, hdone, hflushed, hsent, hwire⟩ : ∃ s,
      Machine.run step Soft (new (((Connection.new 0 5 .invalid false
          true).setCloseCallback.setMessageCallback).connectionEstablished true))
        [.call (.send2 [7]), .tau, .epollCtl true, .event { EpollEvents.none with epollout := true },
          .write [0, 0, 0, 0, 0, 0, 0, 1, 7] (.accepted 9)] = some s ∧
      s.stack = [] ∧ s.conn.sendBuffer.readable = [] ∧ s.history.sent = [[7]] ∧
      s.history.wire = [0, 0, 0, 0, 0, 0, 0, 1, 7] := ⟨_, rfl, rfl, rfl, rfl, rfl⟩
  obtain ⟨b, hrun', hidle, hconsumed⟩ : ∃ s,
      Machine.run step (fun _ label => label.legal) (new (((Connection.new 0 5 .invalid false
          true).setCloseCallback.setMessageCallback).connectionEstablished true))
        [.event { EpollEvents.none with epollin := true }, .tau, .read 8 (.data [0, 0, 0, 0, 0]),
          .read 3 (.data [0, 0, 1]), .read 1 (.data [7]), .onMessage [], .tau] = some s ∧
      s.stack = [] ∧ s.history.consumed = [0, 0, 0, 0, 0, 0, 0, 1, 7] := ⟨_, rfl, rfl, rfl⟩
  have ha : Machine.Reachable step Soft Fresh a := .run (.init hfresh) hrun
  have hb : Machine.Reachable step (fun _ label => label.legal) Fresh b := .run (.init hfresh) hrun'
  have hlaw := roundTrip ha hdone hflushed hb hidle
  have hdecode := hlaw.1 (by rw [hsent]; decide) (hconsumed.trans hwire.symm)
  refine ⟨a, b, ha, hb, hsent, hdecode, hlaw.2 hdecode.2 ?_ hdecode.1.symm⟩
  rw [hconsumed]
  decide

end Session

end EpollServer
