import EpollServer.Buffer
import EpollServer.Channel
import EpollServer.Tlv

/-!
# Connections

The members of `Connection` and the code of its functions. A function runs up to its next system call or
callback and leaves the rest of its work as a list of `Op`, the continuation that the thread still has to
run; the `while(true)` of `ReadNonBlocking` leaves itself. The result of the call comes in as an argument.
-/

namespace EpollServer

inductive ConnectionState where
  | invalid
  | connected
  | disconected
  deriving DecidableEq, Repr

structure Connection where
  clientFd : Fd
  state : ConnectionState
  eventLoop : Nat
  channel : Channel
  readBuffer : List UInt8
  sendBuffer : Buffer
  readTlvHeaderLength : Nat
  readBodyLength : Nat
  tlvHeader : TLVHeader
  readyToHandleMessage : Bool
  /-- Whether `on_close_callback` is set. -/
  onCloseCallback : Bool
  /-- Whether `on_message_callback` is set. -/
  onMessageCallback : Bool
  deriving Repr

/-- The member functions that application code and callbacks use. -/
inductive Call where
  /-- `Send`, where the stack of the thread has `room` bytes left for its array. -/
  | send (msg : List UInt8) (room : Nat)
  | send2 (msg : List UInt8)
  | sendWithTwoSysCall (msg : List UInt8)
  | handleClose
  deriving DecidableEq, Repr

/-- Work that a thread still has to do on a connection. -/
inductive Op where
  | call (f : Call)
  | handleMessage
  | handleWrite
  /-- The head of the loop in `ReadNonBlocking`. -/
  | readNonBlocking
  /-- `HandleMessage` after `Read()`. -/
  | messageReady
  /-- `HandleMessage` after `on_message_callback`. -/
  | messageDone
  | handleClose
  /-- `on_close_callback(shared_from_this())`. -/
  | onClose
  | sendInternal (msg : List UInt8)
  /-- `channel->EnableWrite()`. -/
  | enableWrite
  /-- The end of `WriteNonBlocking` when its `write` is to be repeated: `Retrieve(send_size)` with
  `send_size` 0. -/
  | retrieveNone
  deriving DecidableEq, Repr

/-- The difference of two values of type `size_t`. -/
def sizeSub (a b : Nat) : Nat := if b ≤ a then a - b else a + 2 ^ 64 - b

namespace Connection

/-- The constructor for a loop that is not null, with the values that `state` and `tied` happen to hold
and the outcome of the registration in `EnableET`. -/
def new (loop : Nat) (connfd : Fd) (state : ConnectionState) (tied ok : Bool) : Connection where
  clientFd := connfd
  state := state
  eventLoop := loop
  channel := (Channel.new connfd tied).enableET ok
  readBuffer := []
  sendBuffer := .new
  readTlvHeaderLength := 0
  readBodyLength := 0
  tlvHeader := ⟨0, 0⟩
  readyToHandleMessage := false
  onCloseCallback := false
  onMessageCallback := false

variable (c : Connection)

def setCloseCallback : Connection := { c with onCloseCallback := true }

def setMessageCallback : Connection := { c with onMessageCallback := true }

/-- The first statement of `ConnectionEstablished`. -/
def setConnected : Connection := { c with state := .connected }

/-- `channel->Tie(shared_from_this())`. -/
def tie : Connection := { c with channel := c.channel.tie }

/-- `channel->EnableRead()`. -/
def enableRead (ok : Bool) : Connection := { c with channel := c.channel.enableRead ok }

/-- `ConnectionEstablished` up to the connection callback. -/
def connectionEstablished (ok : Bool) : Connection := (c.setConnected.tie).enableRead ok

/-- The count that the next `read` of `ReadNonBlocking` asks for. -/
def readCount : Nat :=
  if c.readTlvHeaderLength < tlvHeaderLength then tlvHeaderLength - c.readTlvHeaderLength
  else sizeSub c.readBuffer.length c.readBodyLength

/-- `ReadNonBlocking` from a `read` in the header on. -/
def readHeader (r : ReadResult) : Connection × List Op :=
  match r with
  | .data [] => (c, [.handleClose])
  | .data bytes =>
      let c := { c with
        tlvHeader := c.tlvHeader.store c.readTlvHeaderLength bytes
        readTlvHeaderLength := c.readTlvHeaderLength + bytes.length }
      if c.readTlvHeaderLength = tlvHeaderLength then
        let c := { c with tlvHeader := c.tlvHeader.swapped }
        if maxTlvLength < c.tlvHeader.length.toNat then (c, [.handleClose])
        else
          ({ c with readBuffer := Slice.resize c.readBuffer c.tlvHeader.length.toNat 0 },
            [.readNonBlocking])
      else (c, [.readNonBlocking])
  | .error .eintr => (c, [.readNonBlocking])
  | .error errno => if errno.isAgain then (c, []) else (c, [.handleClose])

/-- `ReadNonBlocking` from a `read` in the body on. -/
def readBody (r : ReadResult) : Connection × List Op :=
  match r with
  | .data [] =>
      if c.readBodyLength = c.tlvHeader.length.toNat then
        ({ c with readyToHandleMessage := true }, [])
      else (c, [.handleClose])
  | .data bytes =>
      let c := { c with
        readBuffer := Slice.overwrite c.readBuffer c.readBodyLength bytes
        readBodyLength := c.readBodyLength + bytes.length }
      if c.readBodyLength = c.tlvHeader.length.toNat then
        ({ c with readyToHandleMessage := true }, [])
      else (c, [.readNonBlocking])
  | .error .eintr => (c, [.readNonBlocking])
  | .error errno => if errno.isAgain then (c, []) else (c, [.handleClose])

/-- One pass of the loop in `ReadNonBlocking`, given the result of its `read`. -/
def readNonBlocking (r : ReadResult) : Connection × List Op :=
  if c.readTlvHeaderLength < tlvHeaderLength then c.readHeader r else c.readBody r

/-- The condition under which `HandleMessage` calls `on_message_callback`. -/
def hasMessage : Bool := c.onMessageCallback && c.readyToHandleMessage

/-- What `HandleMessage` does after the callback. -/
def messageDone : Connection :=
  { c with readyToHandleMessage := false, readTlvHeaderLength := 0, readBodyLength := 0 }

def handleClose : Connection × List Op :=
  if c.state ≠ .disconected then
    ({ c with state := .disconected }, if c.onCloseCallback then [.onClose] else [])
  else (c, [])

/-- The header object that a send function writes, in memory. -/
def headerBytes (len : Nat) : List UInt8 := (stringHeader len).swapped.bytes

/-- The end of `Send` and of `SendInternal`: `bytes` from `sendSize` on goes to the send buffer. -/
def bufferRemaining (bytes : List UInt8) (sendSize : Nat) : Option (Connection × List Op) :=
  if sendSize < bytes.length then do
    let buffer ← c.sendBuffer.append (bytes.drop sendSize) (bytes.length - sendSize : Nat)
    some ({ c with sendBuffer := buffer }, [.enableWrite])
  else some (c, [])

/-- `Send` and `SendInternal` from their `write` of `bytes` on. -/
def afterWrite (bytes : List UInt8) (r : WriteResult) : Option (Connection × List Op) :=
  match r with
  | .accepted count => c.bufferRemaining bytes count
  | .error errno => if errno.isRetry then c.bufferRemaining bytes 0 else some (c, [.handleClose])

/-- `response` of `Send`. A length that `response_len` cannot hold makes the array too short for the
copies into it, and an array that is longer than what is left of the stack kills the process. -/
def sendResponse (msg : List UInt8) (room : Nat) : Option (List UInt8) :=
  if CInt.ofSize (tlvHeaderLength + msg.length) = tlvHeaderLength + msg.length ∧
      tlvHeaderLength + msg.length ≤ room then
    some (headerBytes msg.length ++ msg)
  else none

/-- The bytes that `SendInternal` handles: `response_len` of them. -/
def internalResponse (msg : List UInt8) : List UInt8 := msg.take (CInt.ofSize msg.length).toNat

def send2 (msg : List UInt8) : Option (Connection × List Op) := do
  let buffer ← c.sendBuffer.append (headerBytes msg.length) tlvHeaderLength
  let buffer ← buffer.append msg (CInt.ofSize msg.length)
  some ({ c with sendBuffer := buffer }, [.enableWrite])

def sendWithTwoSysCall (msg : List UInt8) : List Op :=
  [.sendInternal (headerBytes msg.length), .sendInternal msg]

/-- `send_buffer->Retrieve(send_size)`. -/
def retrieve (sendSize : Nat) : Option (Connection × List Op) := do
  let buffer ← c.sendBuffer.retrieve sendSize
  some ({ c with sendBuffer := buffer }, [])

/-- `WriteNonBlocking` from its `write` on. -/
def writeNonBlocking (r : WriteResult) : Option (Connection × List Op) :=
  match r with
  | .accepted count => c.retrieve count
  | .error errno =>
      if errno.isRetry then some (c, [.enableWrite, .retrieveNone]) else some (c, [.handleClose])

/-- `Channel::HandleEventWithGuard` on the channel of a connection. -/
def handleEventWithGuard : List Op :=
  (if c.channel.readyEvents.isReadable then [.handleMessage] else []) ++
    (if c.channel.readyEvents.isWritable then [.handleWrite] else [])

end Connection

end EpollServer
