import EpollServer.Lib.CInt
import EpollServer.Syscall
import EpollServer.Tlv

/-!
# The load-test clients

`client.cpp` opens a connection for each request, `client_longconn.cpp` sends all requests of a thread on
one. They share the functions that build a packet and check a response. The loop that fills the packet
advances its variable on the right of an assignment whose left side uses it, so the order in which the two
sides are evaluated is a parameter.
-/

namespace EpollServer

namespace Client

/-- The characters of `alphanum`, without the null character at its end. -/
def alphanum : List UInt8 :=
  ("0123456789" ++ "ABCDEFGHIJKLMNOPQRSTUVWXYZ" ++ "abcdefghijklmnopqrstuvwxyz").toList.map
    fun c => UInt8.ofNat c.toNat

/-- `alphanum[i % (sizeof(alphanum) - 1)]`. -/
def character (i : Nat) : UInt8 := alphanum.get ⟨i % alphanum.length, Nat.mod_lt _ (by decide)⟩

/-- Which side of an assignment is evaluated first. -/
inductive Order where
  | leftFirst
  | rightFirst
  deriving DecidableEq, Repr

/-- The value of `i` on the left of the assignment, given those before and after the `i++` on its right. -/
def Order.left (order : Order) (before after : Nat) : Nat :=
  match order with
  | .leftFirst => before
  | .rightFirst => after

/-- `++` on an `int` that is not negative. -/
def increment (i : Nat) : Option Nat := (CInt.check (i + 1)).map Int.toNat

/-- The loop of `generateRandomPackage` at its head. -/
structure Filling where
  i : Nat
  packet : List UInt8
  deriving DecidableEq, Repr

/-- `packet[index] = value`; outside of the vector the behaviour is undefined. -/
def Filling.write (s : Filling) (index : Nat) (value : UInt8) : Option Filling :=
  if index < s.packet.length then some { s with packet := s.packet.set index value } else none

/-- `packet[TLV_HEADER_LENGTH+i] = alphanum[i++ % (sizeof(alphanum) - 1)]`, then `++i`. -/
def Filling.pass (order : Order) (s : Filling) : Option Filling := do
  let value := character s.i
  let next ← increment s.i
  let s ← { s with i := next }.write (tlvHeaderLength + order.left s.i next) value
  let i ← increment s.i
  some { s with i := i }

/-- The loop, for at most so many passes. -/
def Filling.run (order : Order) (length : Nat) : Nat → Filling → Option Filling
  | 0, s => some s
  | passes + 1, s =>
      if s.i < length then (s.pass order).bind (Filling.run order length passes) else some s

/-- The packet before the loop: the header, and zeros. -/
def newPacket (length : Nat) : List UInt8 :=
  Slice.overwrite (List.replicate (tlvHeaderLength + length) 0) 0 (stringHeader length).swapped.bytes

/-- `generateRandomPackage`. As many passes as the length has bytes are enough. -/
def generateRandomPackage (order : Order) (length : Nat) : Option (List UInt8) :=
  (Filling.run order length length ⟨0, newPacket length⟩).map Filling.packet

def hashVector : List UInt8 → UInt8
  | [] => 0
  | b :: bs => bs.foldl (· &&& ·) b

/-- The two vectors of one request in `client_thread`. -/
structure Buffers where
  packet : List UInt8
  received : List UInt8

/-- `read(sock, packet.data(), MESSAGE_SIZE+TLV_HEADER_LENGTH)`. -/
def Buffers.read (b : Buffers) (r : ReadResult) : Buffers :=
  { b with packet := Slice.overwrite b.packet 0 r.bytes }

/-- The return value of `read`. -/
def bytesReceived : ReadResult → Int
  | .data bytes => bytes.length
  | .error _ => -1

/-- A request of `client_thread` from the packet on; whether it counts as successful. -/
def exchange (messageSize : Nat) (packet : List UInt8) (written : WriteResult) (response : ReadResult) :
    Bool :=
  let hash := hashVector packet
  if written ≠ .accepted (messageSize + tlvHeaderLength) then false
  else
    let buffers : Buffers := ⟨packet, List.replicate (messageSize + tlvHeaderLength) 0⟩
    let buffers := buffers.read response
    let receivedHash := hashVector buffers.received
    if bytesReceived response ≠ (messageSize + tlvHeaderLength : Nat) ∨ hash ≠ receivedHash then false
    else true

/-- What one pass of the loop in `client_thread` meets. -/
structure Attempt where
  /-- The value of `ms`, which the threads share. -/
  ms : Nat
  /-- Whether `socket`, `inet_pton` and `connect` succeed. -/
  connects : Bool
  written : WriteResult
  response : ReadResult

structure Counters where
  totalRequests : Nat
  successfulRequests : Nat
  deriving DecidableEq, Repr

/-- `MAX_MESSAGE_SIZE` of `client.cpp`. -/
def maxMessageSize : Nat := 512

/-- `client_thread` of `client.cpp`, with the attempts that its loop makes. -/
def clientThread (order : Order) : List Attempt → Counters → Option Counters
  | [], c => some c
  | a :: attempts, c => do
      let messageSize := a.ms % maxMessageSize
      let packet ← generateRandomPackage order messageSize
      let c := { c with totalRequests := c.totalRequests + 1 }
      if a.connects && exchange messageSize packet a.written a.response then
        clientThread order attempts { c with successfulRequests := c.successfulRequests + 1 }
      else clientThread order attempts c

end Client

namespace LongClient

open Client

/-- `MAX_MESSAGE_SIZE` of `client_longconn.cpp`. -/
def maxMessageSize : Nat := 256

/-- `REQUESTS_PER_THREAD` of `client_longconn.cpp`. -/
def requestsPerThread : Nat := 100000

/-- The loop of `client_thread`, which a request that fails ends. -/
def requests (order : Order) : List Attempt → Counters → Option Counters
  | [], c => some c
  | a :: attempts, c => do
      let messageSize := a.ms % maxMessageSize
      let packet ← generateRandomPackage order messageSize
      if exchange messageSize packet a.written a.response then
        requests order attempts { c with successfulRequests := c.successfulRequests + 1 }
      else some c

/-- `client_thread` of `client_longconn.cpp`, given whether the connection could be opened. -/
def clientThread (order : Order) (connects : Bool) (attempts : List Attempt) (c : Counters) :
    Option Counters :=
  let c := { c with totalRequests := c.totalRequests + requestsPerThread }
  if connects then requests order attempts c else some c

end LongClient

end EpollServer
