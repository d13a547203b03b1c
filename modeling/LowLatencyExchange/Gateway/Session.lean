import LowLatencyExchange.Gateway.Messages
import LowLatencyExchange.Library.Transducer
import Mathlib.Tactic

/-!
# One TCP session

`TcpSession` of `tcp_gateway.cpp` as a state machine. Its events are the completions of the
outstanding `async_read` and `async_write`, and the messages that `poll_outbound` hands to
it. The handlers keep the names of the source.

A `Connection` is a session with its surroundings. The client's side is the stream of bytes
that it sends: a read takes the next bytes of it, or fails. The inbound queue's side is
`tryPush`, the outcome of each `try_push` in turn. What the session did is recorded: the
messages pushed, the protocol errors sent, the reads requested, and the frames written.
-/
namespace LowLatencyExchange

open Protocol

/-- A frame in the write queue. The source queues the bytes alone; `fatal` remembers that the
frame reports a fatal protocol error. -/
structure QueuedFrame where
  bytes : List UInt8
  fatal : Bool
  deriving DecidableEq

/-- The outstanding `async_read` of a session. -/
inductive Reading where
  | header
  | payload (header : WireHeader)
  deriving DecidableEq

/-- A read request: the size of the buffer and the number of bytes asked for. -/
structure ReadRequest where
  bufferSize : Nat
  size : Nat
  deriving DecidableEq

structure Connection where
  sessionId : UInt64
  /-- `socket_.is_open()` -/
  isOpen : Bool
  /-- The gateway finds the session in `sessions_`. -/
  registered : Bool
  reading : Option Reading
  writeQueue : List QueuedFrame
  /-- An `async_write` of the front frame is outstanding. -/
  writing : Bool
  lastSequence : Nat
  closeAfterWrite : Bool
  /-- What is left of the client's stream. -/
  unread : List UInt8
  reads : List ReadRequest
  pushed : List InboundMessage
  errors : List ProtocolErrorEvent
  written : List QueuedFrame
  deriving DecidableEq

inductive SessionEvent where
  /-- The outstanding read completes. -/
  | read (error : Bool)
  /-- `poll_outbound` takes a message from the outbound queue. -/
  | poll (message : OutboundMessage)
  /-- The outstanding write completes. -/
  | write (error : Bool)
  deriving DecidableEq

namespace TcpSession

def unregister (c : Connection) : Connection := { c with registered := false }

def close (c : Connection) : Connection := { c with isOpen := false }

/-! ## Writing -/

def doWrite (c : Connection) : Connection := { c with writing := true }

def sendRawFrame (c : Connection) (frame : QueuedFrame) : Connection :=
  if frame.bytes = [] ∨ c.isOpen = false then c
  else
    let writeInProgress := c.writeQueue ≠ []
    let c := { c with writeQueue := c.writeQueue ++ [frame] }
    if writeInProgress then c else doWrite c

/-- The source's `fatal` parameter is true in every call. -/
def sendProtocolError (c : Connection) (code : ErrorCode) (offendingType : UInt8) : Connection :=
  let c := { c with closeAfterWrite := true, errors := c.errors ++ [⟨code, offendingType⟩] }
  let frame := makeErrorFrame code offendingType
  if frame = [] then unregister (close c) else sendRawFrame c ⟨frame, true⟩

/-- The handler of `do_write`. -/
def onWrite (c : Connection) (error : Bool) : Connection :=
  let c := { c with writing := false }
  if error then unregister c
  else
    let c := { c with written := c.written ++ c.writeQueue.head?.toList,
                      writeQueue := c.writeQueue.tail }
    if c.writeQueue ≠ [] then doWrite c
    else if c.closeAfterWrite then unregister (close { c with closeAfterWrite := false })
    else c

/-- `poll_outbound`, as far as one session is concerned. -/
def onPoll (c : Connection) (message : OutboundMessage) : Connection :=
  if c.registered ∧ (message.sessionId = 0 ∨ message.sessionId = c.sessionId) then
    sendRawFrame c ⟨serializeOutbound message, false⟩
  else c

/-! ## Reading -/

def doReadHeader (c : Connection) : Connection :=
  { c with reading := some .header, reads := c.reads ++ [⟨kHeaderSize, kHeaderSize⟩] }

def doReadPayload (c : Connection) (header : WireHeader) : Connection :=
  { c with reading := some (.payload header)
           reads := c.reads ++ [⟨kMaxPayloadLength.toNat, header.payloadLength.toNat⟩] }

/-- The bytes that a completed `async_read` of a size delivers: exactly as many, in stream
order, or an error. -/
def delivered (c : Connection) (size : Nat) (error : Bool) : Option (List UInt8) :=
  if error ∨ c.unread.length < size then none else some (c.unread.take size)

/-- An error code or the decoded order, from the two results of a decoder. -/
def decodedAs {A : Type} (command : A → Command) (result : Option ErrorCode × A) :
    Except ErrorCode Command :=
  match result with
  | (some code, _) => .error code
  | (none, order) => .ok (command order)

/-- The `switch` of `do_read_payload`, up to the call of `enqueue_command`. -/
def decodePayload (type : UInt8) (payload : List UInt8) : Except ErrorCode Command :=
  match MessageType.fromValue type with
  | some .newOrder => decodedAs .submit (decodeNewOrder payload initialNewOrder)
  | some .cancelOrder => decodedAs .cancel (decodeCancelOrder payload initialCancelOrder)
  | some .replaceOrder => decodedAs .replace (decodeReplaceOrder payload initialReplaceOrder)
  | _ => .error .unknownMessageType

section Inbound

variable (tryPush : Nat → Bool)

/-- A failed push ends the reading, so the pushes before this one all succeeded and their
number is the index of this one. -/
def enqueueCommand (c : Connection) (type : UInt8) (command : Command) : Connection × Bool :=
  if command.sequence.value ≤ c.lastSequence then
    (sendProtocolError c .sequenceOutOfOrder type, false)
  else if tryPush c.pushed.length = false then
    (sendProtocolError c .sessionOverloaded type, false)
  else
    let payloadSize := (expectedPayloadLength type).getD 0
    ({ c with
        pushed := c.pushed ++
          [⟨c.sessionId, command, UInt32.ofNat (kHeaderSize + payloadSize.toNat)⟩]
        lastSequence := command.sequence.value }, true)

def onReadHeader (c : Connection) (error : Bool) : Connection :=
  match delivered c kHeaderSize error with
  | none => unregister c
  | some headerBuf =>
    let c := { c with unread := c.unread.drop kHeaderSize }
    match decodeHeader headerBuf with
    | none => unregister (sendProtocolError c .malformedFrame 0)
    | some header =>
      match validateHeader header with
      | some code => sendProtocolError c code header.type
      | none => doReadPayload c header

def onReadPayload (c : Connection) (header : WireHeader) (error : Bool) : Connection :=
  match delivered c header.payloadLength.toNat error with
  | none => unregister c
  | some payload =>
    let c := { c with unread := c.unread.drop header.payloadLength.toNat }
    match decodePayload header.type payload with
    | .error code => sendProtocolError c code header.type
    | .ok command =>
      let (c, enqueued) := enqueueCommand tryPush c header.type command
      if enqueued then doReadHeader c else c

def onRead (c : Connection) (error : Bool) : Connection :=
  match c.reading with
  | none => c
  | some .header => onReadHeader { c with reading := none } error
  | some (.payload header) => onReadPayload tryPush { c with reading := none } header error

/-! ## Runs -/

def step (c : Connection) : SessionEvent → Connection
  | .read error => onRead tryPush c error
  | .poll message => onPoll c message
  | .write error => if c.writing then onWrite c error else c

/-- An accepted connection, with its first read requested by `start`. -/
def start (sessionId : UInt64) (stream : List UInt8) : Connection :=
  doReadHeader {
    sessionId := sessionId, isOpen := true, registered := true, reading := none,
    writeQueue := [], writing := false, lastSequence := 0, closeAfterWrite := false,
    unread := stream, reads := [], pushed := [], errors := [], written := [] }

def run (sessionId : UInt64) (stream : List UInt8) (events : List SessionEvent) : Connection :=
  Transducer.run (fun c event => (step tryPush c event, ())) (start sessionId stream) events

end Inbound

/-! ## What the handlers leave alone -/

/-- Every frame ever queued, in order: the frames written and those still waiting. -/
def queued (c : Connection) : List QueuedFrame := c.written ++ c.writeQueue

/-- What the read handlers work on. -/
structure ReaderView where
  sessionId : UInt64
  reading : Option Reading
  lastSequence : Nat
  unread : List UInt8
  reads : List ReadRequest
  pushed : List InboundMessage
  errors : List ProtocolErrorEvent

def readerView (c : Connection) : ReaderView :=
  ⟨c.sessionId, c.reading, c.lastSequence, c.unread, c.reads, c.pushed, c.errors⟩

section Frame

variable (c : Connection)

theorem queued_sendRawFrame {frame : QueuedFrame} (hb : frame.bytes ≠ []) (ho : c.isOpen = true) :
    queued (sendRawFrame c frame) = queued c ++ [frame] := by
  unfold sendRawFrame queued
  rw [if_neg (by simp [hb, ho])]
  dsimp only
  split_ifs <;> simp [doWrite]

theorem sendRawFrame_of_closed {frame : QueuedFrame} (h : frame.bytes = [] ∨ c.isOpen = false) :
    sendRawFrame c frame = c := if_pos h

theorem queued_onWrite (error : Bool) : queued (onWrite c error) = queued c := by
  have hmove : c.written ++ c.writeQueue.head?.toList ++ c.writeQueue.tail =
      c.written ++ c.writeQueue := by
    cases c.writeQueue <;> simp
  unfold onWrite queued
  dsimp only
  split_ifs <;> simp [unregister, close, doWrite, hmove]

@[simp] theorem readerView_sendRawFrame (frame : QueuedFrame) :
    readerView (sendRawFrame c frame) = readerView c := by
  unfold sendRawFrame
  dsimp only
  split_ifs <;> rfl

@[simp] theorem readerView_onWrite (error : Bool) : readerView (onWrite c error) = readerView c := by
  unfold onWrite
  dsimp only
  split_ifs <;> rfl

@[simp] theorem readerView_onPoll (message : OutboundMessage) :
    readerView (onPoll c message) = readerView c := by
  unfold onPoll
  split_ifs
  · exact readerView_sendRawFrame c _
  · rfl

/-- A protocol error adds to the errors and to the write queue, and nothing else. -/
theorem sendProtocolError_eq (code : ErrorCode) (type : UInt8) :
    sendProtocolError c code type =
      sendRawFrame { c with closeAfterWrite := true, errors := c.errors ++ [⟨code, type⟩] }
        ⟨makeErrorFrame code type, true⟩ := by
  unfold sendProtocolError
  exact if_neg (makeErrorFrame_ne_nil code type)

end Frame

theorem delivered_eq_some {c : Connection} {size : Nat} {error : Bool} {bytes : List UInt8}
    (h : delivered c size error = some bytes) :
    bytes.length = size ∧ c.unread = bytes ++ c.unread.drop size := by
  unfold delivered at h
  split_ifs at h with hfail
  obtain rfl := Option.some.inj h
  refine ⟨?_, (List.take_append_drop _ _).symm⟩
  rw [List.length_take]
  omega

theorem delivered_append {c : Connection} {bytes rest : List UInt8} {size : Nat}
    (hunread : c.unread = bytes ++ rest) (hsize : bytes.length = size) :
    delivered c size false = some bytes ∧ c.unread.drop size = rest := by
  subst hsize
  refine ⟨?_, by rw [hunread, List.drop_left]⟩
  rw [delivered, if_neg (by simp [hunread]), hunread, List.take_left]

theorem delivered_eq_none {c : Connection} {size : Nat} {error : Bool}
    (h : delivered c size error = none) : error = true ∨ c.unread.length < size := by
  unfold delivered at h
  by_contra hfail
  rw [if_neg hfail] at h
  cases h

theorem decodeHeader_isSome {bytes : List UInt8} (h : bytes.length = kHeaderSize) :
    ∃ header, decodeHeader bytes = some header := by
  rw [decodeHeader, if_neg (by omega)]
  exact ⟨_, rfl⟩

end TcpSession

end LowLatencyExchange
