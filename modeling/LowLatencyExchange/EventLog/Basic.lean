import LowLatencyExchange.Library.BoundedFifo
import LowLatencyExchange.Library.RecordStream
import LowLatencyExchange.OrderBook.Queries
import LowLatencyExchange.Protocol.Commands
import Mathlib.Tactic

/-!
# The event log

Capture, file format and replay of `event_log.cpp`. A file is the list of bytes written to
it. The empty alternative of `CapturedCommand`, which the engine never captures, is left out.
-/
namespace LowLatencyExchange

open Protocol LittleEndian

abbrev CapturedCommand := Command

inductive EventLogError where
  | ioError | truncatedHeader | malformedHeader | truncatedPayload | checksumMismatch
  | invalidCommand | replayCommandRejected
  deriving DecidableEq, Repr

namespace EventLog

def kRecordMagic : Nat := 0x474C584C
def kRecordVersion : UInt8 := 1
def kRecordHeaderSize : Nat := 16
def kRecordPayloadMax : Nat := kNewOrderSize
def kFnvOffsetBasis : UInt64 := 14695981039346656037
def kFnvPrime : UInt64 := 1099511628211

def mix (hash : UInt64) (value : UInt8) : UInt64 := (hash ^^^ value.toUInt64) * kFnvPrime

def checksum (type : UInt8) (payload : List UInt8) : UInt64 :=
  ([kRecordVersion, type, UInt8.ofNat payload.length, UInt8.ofNat (payload.length / 256)] ++
    payload).foldl mix kFnvOffsetBasis

/-! ## Commands as payloads -/

/-- The type and the payload of a command. -/
def encodeCommand : CapturedCommand → Option (MessageType × List UInt8)
  | .submit order =>
    (encodeNewOrder order (List.replicate kNewOrderSize 0)).map (.newOrder, ·)
  | .cancel order =>
    (encodeCancelOrder order (List.replicate kCancelOrderSize 0)).map (.cancelOrder, ·)
  | .replace order =>
    (encodeReplaceOrder order (List.replicate kReplaceOrderSize 0)).map (.replaceOrder, ·)

/-- Any error of a payload's decoder is an invalid command. -/
def decodedCommand {A : Type} (command : A → Command) (result : Option ErrorCode × A) :
    Except EventLogError CapturedCommand :=
  match result with
  | (some _, _) => .error .invalidCommand
  | (none, order) => .ok (command order)

def decodeCommand (type : UInt8) (payload : List UInt8) : Except EventLogError CapturedCommand :=
  match MessageType.fromValue type with
  | some .newOrder => decodedCommand .submit (decodeNewOrder payload initialNewOrder)
  | some .cancelOrder => decodedCommand .cancel (decodeCancelOrder payload initialCancelOrder)
  | some .replaceOrder => decodedCommand .replace (decodeReplaceOrder payload initialReplaceOrder)
  | _ => .error .invalidCommand

/-! ## Records -/

def recordHeaderFields (type : UInt8) (payload : List UInt8) : List (Nat × List UInt8) :=
  [(0, bytes 4 kRecordMagic), (4, [kRecordVersion]), (5, [type]), (6, bytes 2 payload.length),
    (8, bytes 8 (checksum type payload).toNat)]

/-- The bytes that `append` writes for a type and payload. -/
def recordBytes (type : UInt8) (payload : List UInt8) : List UInt8 :=
  writeAll (recordHeaderFields type payload) (List.replicate kRecordHeaderSize 0) ++ payload

/-- One call of `read_record` on the part of the file that was not read yet. -/
def readRecord (input : List UInt8) : RecordStream.Read UInt8 CapturedCommand EventLogError :=
  let header := input.take kRecordHeaderSize
  if header.length = 0 then .ended
  else if header.length ≠ kRecordHeaderSize then .error .truncatedHeader
  else
    let magic := read 4 0 header
    let version := header.getD 4 0
    let type := header.getD 5 0
    let payloadSize := read 2 6 header
    let expectedChecksum := read 8 8 header
    if magic ≠ kRecordMagic ∨ version ≠ kRecordVersion ∨ isInbound type = false ∨
        (expectedPayloadLength type).map UInt16.toNat ≠ some payloadSize ∨
        kRecordPayloadMax < payloadSize then
      .error .malformedHeader
    else
      let payload := (input.drop kRecordHeaderSize).take payloadSize
      if payload.length ≠ payloadSize then .error .truncatedPayload
      else if (checksum type payload).toNat ≠ expectedChecksum then .error .checksumMismatch
      else
        match decodeCommand type payload with
        | .error e => .error e
        | .ok command => .record command (input.drop (kRecordHeaderSize + payloadSize))

theorem readRecord_shorter {input rest : List UInt8} {command : CapturedCommand}
    (h : readRecord input = .record command rest) : rest.length < input.length := by
  unfold readRecord at h
  dsimp only at h
  split_ifs at h with hempty hheader hfields hpayload hsum
  split at h
  · cases h
  · cases h
    rw [List.length_drop]
    rw [List.length_take] at hempty
    simp only [kRecordHeaderSize] at hempty ⊢
    omega

def reader : RecordStream.Reader UInt8 CapturedCommand EventLogError :=
  ⟨readRecord, readRecord_shorter⟩

end EventLog

/-! ## Capture -/

abbrev EventCaptureQueue := BoundedFifo 4096 CapturedCommand

structure EventCaptureFeed where
  capturedCommands : UInt64
  droppedCommands : UInt64
  maxQueueOccupancy : Nat
  deriving DecidableEq

namespace EventCaptureFeed

def new : EventCaptureFeed := ⟨0, 0, 0⟩

def recordQueueOccupancy (feed : EventCaptureFeed) (queue : EventCaptureQueue) :
    EventCaptureFeed :=
  if feed.maxQueueOccupancy < queue.size then { feed with maxQueueOccupancy := queue.size }
  else feed

def capture (feed : EventCaptureFeed) (queue : EventCaptureQueue) (command : CapturedCommand) :
    EventCaptureFeed × EventCaptureQueue :=
  match queue.tryPush command with
  | none =>
    let feed := { feed with droppedCommands := feed.droppedCommands + 1 }
    (feed.recordQueueOccupancy queue, queue)
  | some queue =>
    let feed := { feed with capturedCommands := feed.capturedCommands + 1 }
    (feed.recordQueueOccupancy queue, queue)

end EventCaptureFeed

/-! ## The file -/

/-- The output stream: its state bits and the bytes it has put into the file. -/
structure EventLogWriter where
  good : Bool
  file : List UInt8
  deriving DecidableEq

namespace EventLogWriter

/-- A writer on a file that was opened and truncated. -/
def new : EventLogWriter := ⟨true, []⟩

/-- `failure` is `none` if the stream takes the whole record, and the number of bytes that
still got into the file if it fails. -/
def append (writer : EventLogWriter) (command : CapturedCommand) (failure : Option Nat) :
    EventLogWriter × Bool :=
  if writer.good = false then (writer, false)
  else
    match EventLog.encodeCommand command with
    | none => (writer, false)
    | some (type, payload) =>
      let record := EventLog.recordBytes type.value payload
      match failure with
      | none => ({ writer with file := writer.file ++ record }, true)
      | some kept => (⟨false, writer.file ++ record.take kept⟩, false)

/-- `failure` is as for `append`: if the stream cannot put out what it buffers, a part of its
bytes is in the file. -/
def flush (writer : EventLogWriter) (failure : Option Nat) : EventLogWriter × Bool :=
  if writer.good = false then (writer, false)
  else
    match failure with
    | none => (writer, true)
    | some kept => (⟨false, writer.file.take kept⟩, false)

end EventLogWriter

/-- One call of `drain_event_capture_one`, with the result of `append` if it was called. -/
def drainEventCaptureOne (queue : EventCaptureQueue) (writer : EventLogWriter)
    (failure : Option Nat) : EventCaptureQueue × EventLogWriter × Option Bool :=
  match queue.tryPop with
  | none => (queue, writer, none)
  | some (command, queue) =>
    let (writer, written) := writer.append command failure
    (queue, writer, some written)

/-! ## Replay -/

namespace EventLog

/-- The locals of `replay_event_log`. -/
structure ReplayState where
  book : OrderBook
  replayedCommands : UInt64

def ReplayState.start : ReplayState := ⟨OrderBook.empty, 0⟩

/-- The body of the loop, for a record that was read. -/
def applyCommand (state : ReplayState) (command : CapturedCommand) :
    ReplayState × Option EventLogError :=
  let (book, result) := state.book.step command
  if result.accepted then (⟨book, state.replayedCommands + 1⟩, none)
  else (⟨book, state.replayedCommands⟩, some .replayCommandRejected)

/-- The loop on the bytes of a file. -/
def replay (file : List UInt8) : ReplayState × Option EventLogError :=
  RecordStream.consume reader applyCommand ReplayState.start file

end EventLog

structure ReplayResult where
  error : Option EventLogError
  replayedCommands : UInt64
  stateDigest : UInt64
  deriving DecidableEq

/-- `none` is a file that cannot be opened. -/
def replayEventLog : Option (List UInt8) → ReplayResult
  | none => ⟨some .ioError, 0, 0⟩
  | some file =>
    let (state, error) := EventLog.replay file
    ⟨error, state.replayedCommands, state.book.stateDigest⟩

end LowLatencyExchange
