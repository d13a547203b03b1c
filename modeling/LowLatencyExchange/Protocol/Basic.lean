import LowLatencyExchange.OrderBook.Basic
import LowLatencyExchange.Library.LittleEndian
import Mathlib.Tactic

/-!
# Frames of the wire protocol

The framing half of `protocol.hpp` and `protocol.cpp`: message types, error codes, and the
8-byte header with its checks. A span of bytes is a list; an encoder that writes through an
`out` span returns the new contents of the span, or `none` where the source returns false.
-/
namespace LowLatencyExchange.Protocol

def kMagic : UInt16 := 0x584C
def kVersion : UInt8 := 1
def kHeaderSize : Nat := 8
def kMaxPayloadLength : UInt16 := 1024
def kFlagMore : UInt16 := 0x0001
def kFlagReservedMask : UInt16 := 0xFFFE

inductive MessageType where
  | newOrder | cancelOrder | replaceOrder
  | orderAccepted | orderRejected | execution | cancelAccepted | cancelRejected
  | replaceAccepted | replaceRejected | protocolError
  deriving DecidableEq, Repr

def MessageType.value : MessageType → UInt8
  | .newOrder => 1
  | .cancelOrder => 2
  | .replaceOrder => 3
  | .orderAccepted => 16
  | .orderRejected => 17
  | .execution => 18
  | .cancelAccepted => 19
  | .cancelRejected => 20
  | .replaceAccepted => 21
  | .replaceRejected => 22
  | .protocolError => 23

/-- The enumerator with a value. The source casts any byte to `MessageType`, so a header keeps
the byte and the cases of a `switch` go through this. -/
def MessageType.fromValue (byte : UInt8) : Option MessageType :=
  [.newOrder, .cancelOrder, .replaceOrder, .orderAccepted, .orderRejected, .execution,
    .cancelAccepted, .cancelRejected, .replaceAccepted, .replaceRejected,
    .protocolError].find? (fun type => type.value = byte)

@[simp] theorem MessageType.fromValue_value (type : MessageType) :
    MessageType.fromValue type.value = some type := by
  cases type <;> rfl

theorem MessageType.fromValue_eq_some {byte : UInt8} {type : MessageType} :
    MessageType.fromValue byte = some type ↔ type.value = byte := by
  constructor
  · intro h
    simpa using List.find?_some h
  · rintro rfl
    exact MessageType.fromValue_value type

/-- The values of the enumerators of `ErrorCode`. -/
def errorCodeValues : List UInt16 := [1, 2, 3, 4, 5, 6, 7, 8, 100, 101, 102, 200, 201]

/-- `unnamed` holds a value without an enumerator. Only the cast of a number that came in a
payload makes one. -/
inductive ErrorCode where
  | malformedFrame | unsupportedVersion | unknownMessageType | payloadLengthInvalid
  | payloadTooLarge | invalidField | limitOrderMissingPrice | marketOrderHasPrice
  | invalidOrder | duplicateOrderId | orderNotFound
  | sessionOverloaded | sequenceOutOfOrder
  | unnamed (value : UInt16) (h : value ∉ errorCodeValues)
  deriving DecidableEq

def ErrorCode.value : ErrorCode → UInt16
  | .malformedFrame => 1
  | .unsupportedVersion => 2
  | .unknownMessageType => 3
  | .payloadLengthInvalid => 4
  | .payloadTooLarge => 5
  | .invalidField => 6
  | .limitOrderMissingPrice => 7
  | .marketOrderHasPrice => 8
  | .invalidOrder => 100
  | .duplicateOrderId => 101
  | .orderNotFound => 102
  | .sessionOverloaded => 200
  | .sequenceOutOfOrder => 201
  | .unnamed value _ => value

def ErrorCode.named : List ErrorCode :=
  [.malformedFrame, .unsupportedVersion, .unknownMessageType, .payloadLengthInvalid,
    .payloadTooLarge, .invalidField, .limitOrderMissingPrice, .marketOrderHasPrice, .invalidOrder,
    .duplicateOrderId, .orderNotFound, .sessionOverloaded, .sequenceOutOfOrder]

/-- `static_cast<ErrorCode>` of a number. -/
def ErrorCode.cast (value : UInt16) : ErrorCode :=
  if h : value ∈ errorCodeValues then
    (ErrorCode.named.find? (fun code => code.value = value)).getD .malformedFrame
  else .unnamed value h

@[simp] theorem ErrorCode.cast_value (code : ErrorCode) : ErrorCode.cast code.value = code := by
  cases code with
  | unnamed value h => exact dif_neg h
  | _ => rfl

@[simp] theorem ErrorCode.value_cast (value : UInt16) : (ErrorCode.cast value).value = value := by
  unfold ErrorCode.cast
  split_ifs with h
  · simp only [errorCodeValues, List.mem_cons, List.not_mem_nil, or_false] at h
    rcases h with rfl | rfl | rfl | rfl | rfl | rfl | rfl | rfl | rfl | rfl | rfl | rfl | rfl <;> rfl
  · rfl

/-! ## Layout -/

def kNewOrderSize : Nat := 40
def kCancelOrderSize : Nat := 16
def kReplaceOrderSize : Nat := 32
def kOrderAcceptedSize : Nat := 24
def kOrderRejectedSize : Nat := 24
def kExecutionSize : Nat := 40
def kCancelAcceptedSize : Nat := 24
def kCancelRejectedSize : Nat := 24
def kReplaceAcceptedSize : Nat := 24
def kReplaceRejectedSize : Nat := 24
def kProtocolErrorSize : Nat := 8

def MessageType.payloadSize : MessageType → Nat
  | .newOrder => kNewOrderSize
  | .cancelOrder => kCancelOrderSize
  | .replaceOrder => kReplaceOrderSize
  | .orderAccepted => kOrderAcceptedSize
  | .orderRejected => kOrderRejectedSize
  | .execution => kExecutionSize
  | .cancelAccepted => kCancelAcceptedSize
  | .cancelRejected => kCancelRejectedSize
  | .replaceAccepted => kReplaceAcceptedSize
  | .replaceRejected => kReplaceRejectedSize
  | .protocolError => kProtocolErrorSize

def expectedPayloadLength (type : UInt8) : Option UInt16 :=
  (MessageType.fromValue type).map (fun type => UInt16.ofNat type.payloadSize)

def isInbound (type : UInt8) : Bool := 1 ≤ type && type ≤ 15

def flagsReservedBitsClear (flags : UInt16) : Bool := flags &&& kFlagReservedMask == 0

theorem MessageType.payloadSize_le (type : MessageType) : type.payloadSize ≤ 40 := by
  cases type <;> decide

theorem expectedPayloadLength_eq_some {type : UInt8} {length : UInt16}
    (h : expectedPayloadLength type = some length) :
    ∃ t : MessageType, t.value = type ∧ length.toNat = t.payloadSize := by
  obtain ⟨t, ht, rfl⟩ := Option.map_eq_some_iff.mp h
  refine ⟨t, MessageType.fromValue_eq_some.mp ht, ?_⟩
  have := t.payloadSize_le
  exact UInt16.toNat_ofNat_of_lt (by rw [UInt16.size]; omega)

/-! ## The header -/

structure WireHeader where
  magic : UInt16
  version : UInt8
  type : UInt8
  flags : UInt16
  payloadLength : UInt16
  deriving DecidableEq

def validateHeader (header : WireHeader) : Option ErrorCode :=
  if header.magic ≠ kMagic then some .malformedFrame
  else if header.version ≠ kVersion then some .unsupportedVersion
  else if kMaxPayloadLength < header.payloadLength then some .payloadTooLarge
  else if !flagsReservedBitsClear header.flags then some .invalidField
  else
    match expectedPayloadLength header.type with
    | none => some .unknownMessageType
    | some expected =>
      if header.payloadLength ≠ expected then some .payloadLengthInvalid else none

/-- The stores of `encode_header`, with their offsets. -/
def headerFields (header : WireHeader) : List (Nat × List UInt8) :=
  [(0, LittleEndian.bytes 2 header.magic.toNat),
    (2, [header.version]),
    (3, [header.type]),
    (4, LittleEndian.bytes 2 header.flags.toNat),
    (6, LittleEndian.bytes 2 header.payloadLength.toNat)]

def encodeHeader (header : WireHeader) (out : List UInt8) : Option (List UInt8) :=
  if out.length < kHeaderSize then none
  else some (LittleEndian.writeAll (headerFields header) out)

def decodeHeader (bytes : List UInt8) : Option WireHeader :=
  if bytes.length < kHeaderSize then none
  else some {
    magic := UInt16.ofNat (LittleEndian.read 2 0 bytes)
    version := bytes.getD 2 0
    type := bytes.getD 3 0
    flags := UInt16.ofNat (LittleEndian.read 2 4 bytes)
    payloadLength := UInt16.ofNat (LittleEndian.read 2 6 bytes) }

end LowLatencyExchange.Protocol
