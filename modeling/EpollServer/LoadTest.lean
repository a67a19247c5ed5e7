import EpollServer.Client
import EpollServer.EdgeTriggered

/-!
# A load-test client and the server

One connection of a load test from end to end, as one step machine: the loop of `client_thread`, the bytes on
their way to the server, and the server's endpoint. The client's socket blocks, so its `read` returns when
there is something to return. What the server wrote reaches the client in order, in pieces of any size.

The connection's bytes that arrive before the server has registered it are in flight until then.
-/

namespace EpollServer

/-- The load-test programs. -/
inductive LoadTest where
  | client
  | clientLongconn
  deriving DecidableEq, Repr

namespace LoadTest

/-- `MAX_MESSAGE_SIZE`. -/
def maxMessageSize : LoadTest → Nat
  | .client => Client.maxMessageSize
  | .clientLongconn => LongClient.maxMessageSize

/-- The number of requests for which a connection is used. -/
def requests : LoadTest → Nat
  | .client => 1
  | .clientLongconn => LongClient.requestsPerThread

end LoadTest

namespace Client

/-- Where a thread is in `client_thread` with a connection. -/
inductive Pc where
  /-- Before the next request. -/
  | loop
  /-- At the `read` of the response. -/
  | read (messageSize : Nat) (packet : List UInt8)
  /-- After `close(sock)`. -/
  | closed
  deriving DecidableEq, Repr

end Client

/-- A request that counted as successful. -/
structure Exchange where
  packet : List UInt8
  response : List UInt8
  deriving DecidableEq, Repr

structure Conversation where
  pc : Client.Pc
  /-- The number of requests that are through. -/
  i : Nat
  /-- What the connection adds to `successful_requests`. -/
  successfulRequests : Nat
  /-- The bytes on their way to the server. -/
  inFlight : List UInt8
  server : Endpoint
  /-- All bytes that the client's `write` took. -/
  written : List UInt8
  /-- All bytes that the client's `read` returned. -/
  returned : List UInt8
  exchanges : List Exchange
  deriving Repr

namespace Conversation

inductive Action where
  /-- A pass of the loop up to its `write`, with the value of `ms`. -/
  | write (ms : Nat) (r : WriteResult)
  /-- The `read` of a pass, and the check of what it returned. -/
  | read (r : ReadResult)
  /-- `close(sock)` after the last request. -/
  | close
  /-- So many bytes reach the server. -/
  | deliver (count : Nat)
  /-- The end of the stream reaches the server. -/
  | fin
  | server (action : Endpoint.Action)
  deriving DecidableEq, Repr

variable (test : LoadTest) (order : Client.Order) (v : Conversation)

/-- Whether a `read` of `count` bytes may return `r`: the next bytes that the server wrote, in any number; 0
once the server has closed the connection and everything was read; an error. -/
def Returns (count : Nat) : ReadResult → Prop
  | .data [] =>
      v.server.session.conn.state = .disconected ∧ v.returned.length = v.server.session.history.wire.length
  | .data bytes =>
      bytes.length ≤ count ∧
        bytes = (v.server.session.history.wire.drop v.returned.length).take bytes.length
  | .error _ => True

instance (count : Nat) : (r : ReadResult) → Decidable (v.Returns count r)
  | .data [] => inferInstanceAs (Decidable (_ ∧ _))
  | .data (_ :: _) => inferInstanceAs (Decidable (_ ∧ _))
  | .error _ => .isTrue trivial

/-- The request up to its `write`, which takes `r.count` bytes of the packet. -/
def write (ms : Nat) (r : WriteResult) : Option Conversation := do
  let messageSize := ms % test.maxMessageSize
  let packet ← Client.generateRandomPackage order messageSize
  if r.count ≤ messageSize + tlvHeaderLength then
    some { v with
      pc := if r = .accepted (messageSize + tlvHeaderLength) then .read messageSize packet else .closed
      inFlight := v.inFlight ++ packet.take r.count
      written := v.written ++ packet.take r.count }
  else none

/-- The rest of the request, whose `read` returned `r`. -/
def read (messageSize : Nat) (packet : List UInt8) (r : ReadResult) : Conversation :=
  let v := { v with returned := v.returned ++ r.bytes }
  if Client.exchange messageSize packet (.accepted (messageSize + tlvHeaderLength)) r then
    { v with
      pc := .loop
      i := v.i + 1
      successfulRequests := v.successfulRequests + 1
      exchanges := v.exchanges ++ [⟨packet, r.bytes⟩] }
  else { v with pc := .closed }

def step (action : Action) : Option Conversation :=
  match action with
  | .write ms r => if v.pc = .loop ∧ v.i < test.requests then v.write test order ms r else none
  | .read r =>
      match v.pc with
      | .read messageSize packet =>
          if v.Returns (messageSize + tlvHeaderLength) r then some (v.read messageSize packet r) else none
      | _ => none
  | .close => if v.pc = .loop ∧ v.i = test.requests then some { v with pc := .closed } else none
  | .deliver count =>
      if count ≤ v.inFlight.length then do
        let server ← v.server.step (.arrive (v.inFlight.take count))
        some { v with inFlight := v.inFlight.drop count, server := server }
      else none
  | .fin =>
      if v.pc = .closed ∧ v.inFlight = [] then do
        let server ← v.server.step .fin
        some { v with server := server }
      else none
  | .server (.arrive _) | .server .fin => none
  | .server action => do
      let server ← v.server.step action
      some { v with server := server }

/-- The client has connected, and the server is about to wait for its bytes. -/
def start (server : Endpoint) : Conversation where
  pc := .loop
  i := 0
  successfulRequests := 0
  inFlight := []
  server := server
  written := []
  returned := []
  exchanges := []

end Conversation

end EpollServer
