import EpollServer.LoadTest
import EpollServer.Proof.Resting
import EpollServer.Proof.Response

/-!
# The load tests against the echo server

The clients compare only the length of a response with that of the packet. But the server writes nothing that
it has not read, and a client writes a packet only when the one before has come back. So client and server go in
step, and a response of the right length is the packet itself.
-/

namespace EpollServer

open Framing

theorem LoadTest.maxMessageSize_le (test : LoadTest) : test.maxMessageSize ≤ maxTlvLength := by
  cases test <;> decide

theorem LoadTest.maxMessageSize_pos (test : LoadTest) : 0 < test.maxMessageSize := by cases test <;> decide

/-- A packet is a frame of type STRING. -/
theorem Client.packet_eq {order : Client.Order} {length : Nat} {packet : List UInt8}
    (h : Client.generateRandomPackage order length = some packet) :
    ∃ body : List UInt8, body.length = length ∧ packet = frameBytes body := by
  obtain ⟨-, hpacket⟩ := Client.generateRandomPackage_eq_some_iff.mp h
  generalize hbody : (List.range length).map _ = body at hpacket
  have hlength : body.length = length := by rw [← hbody, List.length_map, List.length_range]
  exact ⟨body, hlength, by rw [hpacket, frameBytes, hlength]⟩

/-- **The echo server writes nothing that it has not read**, as long as it reads frames of type STRING. -/
theorem Session.Serving.wire_of_frames {s : Session} (hs : s.Serving) {msgs : List (List UInt8)}
    (hshort : ∀ msg ∈ msgs, msg.length ≤ maxTlvLength)
    (hconsumed : s.history.consumed <+: msgs.flatMap frameBytes) :
    bodies tlv s.history.consumed <+: msgs ∧ s.history.wire <+: s.history.consumed := by
  obtain ⟨fs, hencode, hbodies⟩ := flatMap_frameBytes hshort
  have hsplit := split_of_prefix (hencode ▸ hconsumed)
  have hmsgs : bodies tlv s.history.consumed <+: msgs := hbodies ▸ hsplit.map Frame.body
  refine ⟨hmsgs, hs.output_of_input.trans ?_⟩
  refine List.prefix_of_prefix_length_le (hmsgs.flatMap frameBytes) hconsumed ?_
  rw [bodies, length_flatMap_frameBytes]
  exact s.length_encode_split

namespace Endpoint

variable {n n' : Endpoint} {action : Action}

theorem wire_step (h : n.step action = some n') : n.session.history.wire <+: n'.session.history.wire :=
  session_keeps (P := fun s => n.session.history.wire <+: s.history.wire) h List.prefix_rfl
    fun _ hstep => Session.step_wire hstep ▸ List.prefix_append _ _

theorem received_step (h : n.step action = some n') (harrive : ∀ bytes, action ≠ .arrive bytes) :
    n'.socket.received = n.socket.received := by
  cases moves_of_step h with
  | arrive => exact absurd rfl (harrive _)
  | fin | drain | epollWait => rfl
  | run hanswer => exact (answer_spec hanswer).2.2.1

end Endpoint

namespace Conversation

variable {test : LoadTest} {order : Client.Order} {v v' : Conversation} {action : Action}
  {msgs : List (List UInt8)}

/-- A connection just made, which nothing has arrived on. -/
structure Fresh (v : Conversation) : Prop where
  start : v = .start v.server
  server : v.server.Fresh
  received : v.server.socket.received = []
  fin : v.server.socket.fin = false

/-- The steps of the server are those that a condition on its endpoint admits. -/
def Admits (ok : Endpoint → Endpoint.Action → Prop) (v : Conversation) : Action → Prop
  | .server action => ok v.server action
  | _ => True

instance (ok : Endpoint → Endpoint.Action → Prop) [∀ n action, Decidable (ok n action)] (v : Conversation) :
    (action : Action) → Decidable (v.Admits ok action)
  | .server action => inferInstanceAs (Decidable (ok v.server action))
  | .write _ _ | .read _ | .close | .deliver _ | .fin => .isTrue trivial

/-- What a step of a conversation can do. -/
inductive Moves (test : LoadTest) (order : Client.Order) (v : Conversation) : Action → Conversation → Prop
  | write {ms r packet} (hpc : v.pc = .loop)
      (hpacket : Client.generateRandomPackage order (ms % test.maxMessageSize) = some packet)
      (hcount : r.count ≤ ms % test.maxMessageSize + tlvHeaderLength) :
      Moves test order v (.write ms r) { v with
        pc := if r = .accepted (ms % test.maxMessageSize + tlvHeaderLength) then
            .read (ms % test.maxMessageSize) packet
          else .closed
        inFlight := v.inFlight ++ packet.take r.count
        written := v.written ++ packet.take r.count }
  | counted {messageSize packet r} (hpc : v.pc = .read messageSize packet)
      (hreturns : v.Returns (messageSize + tlvHeaderLength) r)
      (hexchange : Client.exchange messageSize packet (.accepted (messageSize + tlvHeaderLength)) r = true) :
      Moves test order v (.read r) { v with
        pc := .loop
        i := v.i + 1
        successfulRequests := v.successfulRequests + 1
        returned := v.returned ++ r.bytes
        exchanges := v.exchanges ++ [⟨packet, r.bytes⟩] }
  | failed {messageSize packet r} (hpc : v.pc = .read messageSize packet)
      (hreturns : v.Returns (messageSize + tlvHeaderLength) r) :
      Moves test order v (.read r) { v with pc := .closed, returned := v.returned ++ r.bytes }
  | close : Moves test order v .close { v with pc := .closed }
  | deliver {count server} (hserver : v.server.step (.arrive (v.inFlight.take count)) = some server) :
      Moves test order v (.deliver count) { v with inFlight := v.inFlight.drop count, server := server }
  | fin {server} (hpc : v.pc = .closed) (hserver : v.server.step .fin = some server) :
      Moves test order v .fin { v with server := server }
  | server {action server} (hown : (∀ bytes, action ≠ .arrive bytes) ∧ action ≠ .fin)
      (hserver : v.server.step action = some server) :
      Moves test order v (.server action) { v with server := server }

/-- **What a step can do.** -/
theorem moves_of_step (h : v.step test order action = some v') : v.Moves test order action v' := by
  cases action with
  | write ms r =>
      obtain ⟨⟨hpc, -⟩, h⟩ := Option.ite_none_right_eq_some.mp h
      obtain ⟨packet, hpacket, h⟩ := Option.bind_eq_some_iff.mp h
      obtain ⟨hcount, h⟩ := Option.ite_none_right_eq_some.mp h
      cases h
      exact .write hpc hpacket hcount
  | read r =>
      unfold step at h
      dsimp only at h
      split at h
      · rename_i messageSize packet hpc
        obtain ⟨hreturns, h⟩ := Option.ite_none_right_eq_some.mp h
        unfold read at h
        split at h
        · rename_i hexchange
          cases h
          exact .counted hpc hreturns hexchange
        · cases h
          exact .failed hpc hreturns
      · cases h
  | close =>
      obtain ⟨-, h⟩ := Option.ite_none_right_eq_some.mp h
      cases h
      exact .close
  | deliver count =>
      obtain ⟨-, h⟩ := Option.ite_none_right_eq_some.mp h
      obtain ⟨server, hserver, h⟩ := Option.bind_eq_some_iff.mp h
      cases h
      exact .deliver hserver
  | fin =>
      obtain ⟨⟨hpc, -⟩, h⟩ := Option.ite_none_right_eq_some.mp h
      obtain ⟨server, hserver, h⟩ := Option.bind_eq_some_iff.mp h
      cases h
      exact .fin hpc hserver
  | server action =>
      cases action with
      | arrive | fin => cases h
      | drain | epollWait | run =>
          obtain ⟨server, hserver, h⟩ := Option.bind_eq_some_iff.mp h
          cases h
          exact .server ⟨by simp, by simp⟩ hserver

theorem server_step (h : v.step test order action = some v') : v'.server = v.server ∨
    ∃ b, v.server.step b = some v'.server ∧ ∀ ok : Endpoint → Endpoint.Action → Prop,
      (∀ n bytes, ok n (.arrive bytes)) → (∀ n, ok n .fin) → v.Admits ok action → ok v.server b := by
  cases moves_of_step h with
  | write | counted | failed | close => exact .inl rfl
  | deliver hserver => exact .inr ⟨_, hserver, fun ok harrive _ _ => harrive _ _⟩
  | fin _ hserver => exact .inr ⟨_, hserver, fun ok _ hfin _ => hfin _⟩
  | server _ hserver => exact .inr ⟨_, hserver, fun ok _ _ hok => hok⟩

/-- The server of a conversation is an endpoint. -/
theorem server_of_reachable {ok : Endpoint → Endpoint.Action → Prop}
    (harrive : ∀ n bytes, ok n (.arrive bytes)) (hfin : ∀ n, ok n .fin)
    (hv : Machine.Reachable (step test order) (Admits ok) Fresh v) :
    Machine.Reachable Endpoint.step ok Endpoint.Fresh v.server := by
  refine hv.map Conversation.server (fun v hv => .init hv.server) fun v action v' _ hok h => ?_
  rcases server_step h with hsame | ⟨b, hstep, hb⟩
  · exact .inl hsame
  · exact .inr ⟨b, hb ok harrive hfin hok, hstep⟩

/-- Where the client is when the bodies of the packets that it has begun to write are `msgs`. -/
inductive Stands (v : Conversation) (msgs : List (List UInt8)) : Prop
  | loop (hpc : v.pc = .loop) (hwritten : v.written = msgs.flatMap frameBytes)
      (hreturned : v.returned.length = v.written.length)
  | read {messageSize packet before body} (hpc : v.pc = .read messageSize packet)
      (hmsgs : msgs = before ++ [body]) (hpacket : packet = frameBytes body)
      (hlength : body.length = messageSize) (hwritten : v.written = msgs.flatMap frameBytes)
      (hreturned : v.returned.length = (before.flatMap frameBytes).length)
  | closed (hpc : v.pc = .closed) (hwritten : v.written <+: msgs.flatMap frameBytes)

/-- The client and the server go in step. -/
structure InStep (v : Conversation) (msgs : List (List UInt8)) : Prop where
  short : ∀ msg ∈ msgs, msg.length ≤ maxTlvLength
  stands : v.Stands msgs
  arrived : v.server.socket.received ++ v.inFlight = v.written
  returned : v.returned <+: v.server.session.history.wire
  own : ∀ e ∈ v.exchanges, e.response = e.packet
  counted : v.exchanges.length = v.successfulRequests

theorem Fresh.inStep (hv : v.Fresh) : v.InStep [] := by
  rw [hv.start]
  exact ⟨fun _ h => absurd h List.not_mem_nil, .loop rfl rfl rfl, (List.append_nil _).trans hv.received,
    List.nil_prefix, fun _ h => absurd h List.not_mem_nil, rfl⟩

theorem InStep.written (hv : v.InStep msgs) : v.written <+: msgs.flatMap frameBytes := by
  cases hv.stands with
  | loop _ hwritten | read _ _ _ _ hwritten => exact hwritten ▸ List.prefix_rfl
  | closed _ hwritten => exact hwritten

/-- The server has written nothing that the client has not written before. -/
theorem InStep.wire (hv : v.InStep msgs) (hserver : Machine.Reachable Endpoint.step Endpoint.Answers
    Endpoint.Fresh v.server) : bodies tlv v.server.session.history.consumed <+: msgs ∧
      v.server.session.history.wire <+: v.server.session.history.consumed ∧
      v.server.session.history.consumed <+: v.written := by
  have hconsumed : v.server.session.history.consumed <+: v.written := by
    rw [← hv.arrived, Endpoint.received_of_reachable hserver, List.append_assoc]
    exact List.prefix_append _ _
  obtain ⟨hbodies, hwire⟩ :=
    (Endpoint.serving_of_reachable hserver).wire_of_frames hv.short (hconsumed.trans hv.written)
  exact ⟨hbodies, hwire, hconsumed⟩

/-- What a `read` returns continues what was returned before. -/
theorem Returns.continues {count : Nat} {r : ReadResult} (h : v.Returns count r)
    (hreturned : v.returned <+: v.server.session.history.wire) :
    v.returned ++ r.bytes <+: v.server.session.history.wire := by
  obtain ⟨rest, hrest⟩ := hreturned
  cases r with
  | error => exact (List.append_nil v.returned).symm ▸ ⟨rest, hrest⟩
  | data bytes =>
      cases bytes with
      | nil => exact (List.append_nil v.returned).symm ▸ ⟨rest, hrest⟩
      | cons b bytes =>
          have hbytes := h.2
          rw [← hrest, List.drop_left'] at hbytes
          · rw [← hrest, ReadResult.bytes, hbytes]
            exact (List.prefix_append_right_inj _).mpr (List.take_prefix _ _)
          · rfl

/-- A packet is written only when everything before it has come back. -/
theorem InStep.write {ms : Nat} {r : WriteResult} {packet : List UInt8} (hv : v.InStep msgs)
    (hpc : v.pc = .loop)
    (hpacket : Client.generateRandomPackage order (ms % test.maxMessageSize) = some packet) :
    ∃ msgs', InStep { v with
      pc := if r = .accepted (ms % test.maxMessageSize + tlvHeaderLength) then
          .read (ms % test.maxMessageSize) packet
        else .closed
      inFlight := v.inFlight ++ packet.take r.count
      written := v.written ++ packet.take r.count } msgs' := by
  obtain ⟨body, hlength, hpacket⟩ := Client.packet_eq hpacket
  have hlt := Nat.mod_lt ms test.maxMessageSize_pos
  have hle := test.maxMessageSize_le
  refine ⟨msgs ++ [body], ?_, ?_, ?_, hv.returned, hv.own, hv.counted⟩
  · refine List.forall_mem_append.mpr ⟨hv.short, fun msg hmsg => ?_⟩
    rw [List.mem_singleton.mp hmsg]
    omega
  · cases hv.stands with
    | read hread => exact absurd (hpc.symm.trans hread) (by simp)
    | closed hclosed => exact absurd (hpc.symm.trans hclosed) (by simp)
    | loop _ hwritten hreturned =>
        by_cases hwhole : r = .accepted (ms % test.maxMessageSize + tlvHeaderLength)
        · have htake : packet.take r.count = frameBytes body := by
            rw [hpacket, hwhole, List.take_of_length_le]
            rw [length_frameBytes, hlength, Nat.add_comm]
            exact Nat.le_refl _
          refine .read (if_pos hwhole) rfl hpacket hlength ?_ ?_
          · rw [htake, hwritten, List.flatMap_append]
            simp
          · rw [hreturned, hwritten]
        · refine .closed (if_neg hwhole) ?_
          rw [hwritten, List.flatMap_append, hpacket]
          simpa using List.take_prefix _ _
  · dsimp only
    rw [← List.append_assoc, hv.arrived]

/-- **A response of the right length is the packet.** -/
theorem InStep.counts {messageSize : Nat} {packet : List UInt8} {r : ReadResult} (hv : v.InStep msgs)
    (hserver : Machine.Reachable Endpoint.step Endpoint.Answers Endpoint.Fresh v.server)
    (hpc : v.pc = .read messageSize packet) (hreturns : v.Returns (messageSize + tlvHeaderLength) r)
    (hexchange : Client.exchange messageSize packet (.accepted (messageSize + tlvHeaderLength)) r = true) :
    InStep { v with
      pc := .loop
      i := v.i + 1
      successfulRequests := v.successfulRequests + 1
      returned := v.returned ++ r.bytes
      exchanges := v.exchanges ++ [⟨packet, r.bytes⟩] } msgs := by
  have hcontinues := hreturns.continues hv.returned
  obtain ⟨-, hwire, hconsumed⟩ := hv.wire hserver
  have hwritten := hcontinues.trans (hwire.trans hconsumed)
  cases hv.stands with
  | loop hloop => exact absurd (hpc.symm.trans hloop) (by simp)
  | closed hclosed => exact absurd (hpc.symm.trans hclosed) (by simp)
  | @read messageSize' packet' before body hread hmsgs hpacket hlength hall hreturned =>
      obtain ⟨rfl, rfl⟩ := Client.Pc.read.inj (hpc.symm.trans hread)
      have hbytes : r.bytes.length = (frameBytes body).length := by
        rw [Client.exchange_eq (hpacket ▸ Client.hashVector_packet body.length body)] at hexchange
        have hlength' := (of_decide_eq_true hexchange).2
        cases r with
        | error => simp [Client.bytesReceived] at hlength'; omega
        | data bytes =>
            rw [length_frameBytes, hlength, Nat.add_comm]
            exact Int.ofNat_inj.mp hlength'
      rw [hall, hmsgs, List.flatMap_append, List.flatMap_singleton] at hwritten
      have heq : v.returned ++ r.bytes = before.flatMap frameBytes ++ frameBytes body :=
        hwritten.eq_of_length (by rw [List.length_append, List.length_append, hreturned, hbytes])
      obtain ⟨-, hresponse⟩ := List.append_inj heq hreturned
      refine ⟨hv.short, .loop rfl hall ?_, hv.arrived, hcontinues, ?_, ?_⟩
      · dsimp only
        rw [heq, hall, hmsgs, List.flatMap_append, List.flatMap_singleton]
      · refine List.forall_mem_append.mpr ⟨hv.own, fun e he => ?_⟩
        rw [List.mem_singleton.mp he]
        exact hresponse.trans hpacket.symm
      · dsimp only
        rw [List.length_append, hv.counted, List.length_singleton]

/-- `Stands` depends on what the client did. -/
theorem Stands.congr (hv : v.Stands msgs) (hpc : v'.pc = v.pc) (hwritten : v'.written = v.written)
    (hreturned : v'.returned = v.returned) : v'.Stands msgs := by
  cases hv with
  | loop hloop hall hlength =>
      exact .loop (hpc.trans hloop) (hwritten.trans hall) (by rw [hreturned, hwritten, hlength])
  | read hread hmsgs hpacket hlength hall hbefore =>
      exact .read (hpc.trans hread) hmsgs hpacket hlength (hwritten.trans hall) (by rw [hreturned, hbefore])
  | closed hclosed hall => exact .closed (hpc.trans hclosed) (hwritten ▸ hall)

theorem InStep.step (hv : v.InStep msgs)
    (hserver : Machine.Reachable Endpoint.step Endpoint.Answers Endpoint.Fresh v.server)
    (h : v.step test order action = some v') : ∃ msgs', v'.InStep msgs' := by
  cases moves_of_step h with
  | write hpc hpacket => exact hv.write hpc hpacket
  | counted hpc hreturns hexchange => exact ⟨msgs, hv.counts hserver hpc hreturns hexchange⟩
  | failed hpc hreturns =>
      exact ⟨msgs, hv.short, .closed rfl hv.written, hv.arrived, hreturns.continues hv.returned, hv.own,
        hv.counted⟩
  | close => exact ⟨msgs, hv.short, .closed rfl hv.written, hv.arrived, hv.returned, hv.own, hv.counted⟩
  | @deliver count server hstep =>
      refine ⟨msgs, hv.short, hv.stands.congr rfl rfl rfl, ?_, hv.returned.trans (Endpoint.wire_step hstep),
        hv.own, hv.counted⟩
      have hreceived : server.socket.received = v.server.socket.received ++ v.inFlight.take count := by
        obtain ⟨-, hstep⟩ := Option.ite_none_right_eq_some.mp hstep
        cases hstep
        rfl
      dsimp only
      rw [hreceived, List.append_assoc, List.take_append_drop, hv.arrived]
  | fin _ hstep =>
      refine ⟨msgs, hv.short, hv.stands.congr rfl rfl rfl, ?_, hv.returned.trans (Endpoint.wire_step hstep),
        hv.own, hv.counted⟩
      rw [Endpoint.received_step hstep (by simp)]
      exact hv.arrived
  | server hown hstep =>
      refine ⟨msgs, hv.short, hv.stands.congr rfl rfl rfl, ?_, hv.returned.trans (Endpoint.wire_step hstep),
        hv.own, hv.counted⟩
      rw [Endpoint.received_step hstep hown.1]
      exact hv.arrived

theorem inStep_of_reachable (hv : Machine.Reachable (step test order) (Admits Endpoint.Answers) Fresh v) :
    ∃ msgs, v.InStep msgs := by
  induction hv with
  | init hv => exact ⟨[], hv.inStep⟩
  | step hv _ h ih =>
      obtain ⟨msgs, hinStep⟩ := ih
      exact hinStep.step (server_of_reachable (fun _ _ => trivial) (fun _ => trivial) hv) h

/-- **Every request that counts got its own packet back, in every run.** And whenever the client is about to
write, all that it has written has come back to it: nothing is on the way to the server, unread or unsent. -/
theorem own_response (hv : Machine.Reachable (step test order) (Admits Endpoint.Answers) Fresh v) :
    (∀ e ∈ v.exchanges, e.response = e.packet) ∧ v.exchanges.length = v.successfulRequests ∧
      (v.pc = .loop → v.returned = v.written ∧ v.inFlight = [] ∧ v.server.socket.recvQueue = [] ∧
        v.server.session.conn.sendBuffer.readable = []) := by
  obtain ⟨msgs, hinStep⟩ := inStep_of_reachable hv
  have hserver := server_of_reachable (fun _ _ => trivial) (fun _ => trivial) hv
  obtain ⟨hbodies, hwire, hconsumed⟩ := hinStep.wire hserver
  refine ⟨hinStep.own, hinStep.counted, fun hpc => ?_⟩
  cases hinStep.stands with
  | read hread => exact absurd (hpc.symm.trans hread) (by simp)
  | closed hclosed => exact absurd (hpc.symm.trans hclosed) (by simp)
  | loop _ hwritten hlength =>
      have hreturned := hinStep.returned.length_le
      have hwireLength := hwire.length_le
      have hconsumedLength := hconsumed.length_le
      have harrived := congrArg List.length hinStep.arrived
      have hreceived := congrArg List.length (Endpoint.received_of_reachable hserver)
      rw [List.length_append] at harrived hreceived
      have hback : v.returned = v.written :=
        ((hinStep.returned.trans hwire).trans hconsumed).eq_of_length hlength
      refine ⟨hback, List.eq_nil_of_length_eq_zero (by omega), List.eq_nil_of_length_eq_zero (by omega), ?_⟩
      -- the frames of what was sent are among those that the client wrote
      have hserving := Endpoint.serving_of_reachable hserver
      have hsent := ((hserving.answering.sent_of_consumed hserving.reading).trans hbodies).flatMap frameBytes
      rw [← hserving.sending.stream, ← hwritten] at hsent
      have hsentLength := hsent.length_le
      rw [List.length_append, List.length_append] at hsentLength
      exact List.eq_nil_of_length_eq_zero (by omega)

/-- A request of one byte, which reaches the server in two pieces. -/
def request : List Action :=
  [.write 1 (.accepted 9), .deliver 5, .server .epollWait, .server (.run .tau false),
    .server (.run (.read 8 (.data [0, 0, 0, 0, 0])) false), .deliver 4,
    .server (.run (.read 3 (.data [0, 0, 1])) false), .server (.run (.read 1 (.data [48])) false),
    .server (.run (.onMessage [.send2 [48]]) false), .server (.run .tau false),
    .server (.run (.epollCtl true) false), .server (.run .tau false), .server .epollWait,
    .server (.run (.write [0, 0, 0, 0, 0, 0, 0, 1, 48] (.accepted 9)) false)]

theorem fresh_start {server : Endpoint} (hserver : server.Fresh) (hreceived : server.socket.received = [])
    (hfin : server.socket.fin = false) : (start server).Fresh :=
  ⟨rfl, hserver, hreceived, hfin⟩

set_option maxRecDepth 10000 in
theorem own_response_request : ∃ v : Conversation,
    Machine.Reachable (step .clientLongconn .leftFirst) (Admits Endpoint.Answers) Fresh v ∧ v.exchanges.length = 1 ∧
    (∀ e ∈ v.exchanges, e.response = e.packet) ∧ v.returned = v.written ∧ v.inFlight = [] := by
  have hserver := Endpoint.fresh_connectionEstablished 0 5 .invalid false ⟨[], false, false, []⟩ rfl
  have hfresh := fresh_start hserver rfl rfl
  generalize hstart : start _ = v₀ at hfresh
  have hview : (Machine.run (step .clientLongconn .leftFirst) (Admits Endpoint.Answers) v₀
      (request ++ [.read (.data [0, 0, 0, 0, 0, 0, 0, 1, 48])])).map
        (fun v => (v.pc, v.successfulRequests)) = some (.loop, 1) := by
    subst hstart
    rfl
  obtain ⟨v, hrun, hend⟩ := Option.map_eq_some_iff.mp hview
  obtain ⟨hpc, hcount⟩ := Prod.mk.inj hend
  have hv : Machine.Reachable (step .clientLongconn .leftFirst) (Admits Endpoint.Answers) Fresh v :=
    .run (.init hfresh) hrun
  obtain ⟨hown, hcounted, hback⟩ := own_response hv
  obtain ⟨hreturned, hempty, -⟩ := hback hpc
  exact ⟨v, hv, hcounted.trans hcount, hown, hreturned, hempty⟩

end Conversation

end EpollServer
