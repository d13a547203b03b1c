import LowLatencyExchange.Protocol.Events
import Mathlib.Tactic

/-!
# Messages between the gateway and the engine

The queue elements of `tcp_gateway.hpp` and the frames made from them. The time of receipt,
which only feeds a latency histogram, is left out.
-/
namespace LowLatencyExchange

open Protocol

/-- `command` is never the empty alternative: a session pushes only decoded commands. -/
structure InboundMessage where
  sessionId : UInt64
  command : Command
  wireBytes : UInt32
  deriving DecidableEq

inductive OutboundPayload where
  | monostate
  | orderAccepted (event : OrderAcceptedEvent)
  | orderRejected (event : OrderRejectedEvent)
  | execution (event : ExecutionEvent)
  | cancelAccepted (event : CancelAcceptedEvent)
  | protocolError (event : ProtocolErrorEvent)
  deriving DecidableEq

/-- Session id 0 addresses every session. -/
structure OutboundMessage where
  sessionId : UInt64
  type : MessageType
  flags : UInt16
  payload : OutboundPayload
  deriving DecidableEq

/-- The payload of a message, encoded in a buffer of its size. -/
def encodePayload : OutboundPayload → Option (List UInt8)
  | .monostate => none
  | .orderAccepted event => encodeOrderAccepted event (List.replicate kOrderAcceptedSize 0)
  | .orderRejected event => encodeOrderRejected event (List.replicate kOrderRejectedSize 0)
  | .execution event => encodeExecution event (List.replicate kExecutionSize 0)
  | .cancelAccepted event => encodeCancelAccepted event (List.replicate kCancelAcceptedSize 0)
  | .protocolError event => encodeProtocolError event (List.replicate kProtocolErrorSize 0)

def serializeOutbound (msg : OutboundMessage) : List UInt8 :=
  match encodePayload msg.payload with
  | none => []
  | some payload =>
    (encodeFrame msg.type payload (List.replicate (kHeaderSize + payload.length) 0)
      msg.flags).getD []

def makeErrorFrame (code : ErrorCode) (offendingType : UInt8) : List UInt8 :=
  match encodeProtocolError ⟨code, offendingType⟩ (List.replicate kProtocolErrorSize 0) with
  | none => []
  | some payload =>
    (encodeFrame .protocolError payload (List.replicate (kHeaderSize + payload.length) 0) 0).getD []

/-! ## What a receiver makes of a frame -/

/-- The decoder for the type accepts the payload and returns the event. -/
def DecodesTo (type : MessageType) (payload : List UInt8) (content : OutboundPayload) : Prop :=
  match type with
  | .orderAccepted | .replaceAccepted =>
    ∃ event, content = .orderAccepted event ∧ ∀ out, decodeOrderAccepted payload out = (none, event)
  | .orderRejected | .cancelRejected | .replaceRejected =>
    ∃ event, content = .orderRejected event ∧ ∀ out, decodeOrderRejected payload out = (none, event)
  | .execution =>
    ∃ event, content = .execution event ∧ ∀ out, decodeExecution payload out = (none, event)
  | .cancelAccepted =>
    ∃ event, content = .cancelAccepted event ∧
      ∀ out, decodeCancelAccepted payload out = (none, event)
  | .protocolError =>
    ∃ event, content = .protocolError event ∧ ∀ out, decodeProtocolError payload out = (none, event)
  | .newOrder | .cancelOrder | .replaceOrder => False

/-- A frame that a receiver reads as the message. -/
structure Framed (msg : OutboundMessage) (frame : List UInt8) : Prop where
  nonempty : frame ≠ []
  header : ∃ header, decodeHeader frame = some header ∧ validateHeader header = none ∧
    header.type = msg.type.value ∧ header.flags = msg.flags
  payload : DecodesTo msg.type (frame.drop kHeaderSize) msg.payload
  length : ∃ size, expectedPayloadLength msg.type.value = some size ∧
    frame.length = kHeaderSize + size.toNat

/-- The types that an event may be sent under. -/
def payloadTypes : OutboundPayload → List MessageType
  | .monostate => []
  | .orderAccepted _ => [.orderAccepted, .replaceAccepted]
  | .orderRejected _ => [.orderRejected, .cancelRejected, .replaceRejected]
  | .execution _ => [.execution]
  | .cancelAccepted _ => [.cancelAccepted]
  | .protocolError _ => [.protocolError]

/-- A message whose type fits its event, with no reserved flag. -/
structure Sendable (msg : OutboundMessage) : Prop where
  type : msg.type ∈ payloadTypes msg.payload
  flags : flagsReservedBitsClear msg.flags = true

/-- The payload of a message whose type fits has the size of the type, and is decoded to the
event. -/
theorem encodePayload_spec {type : MessageType} {content : OutboundPayload}
    (h : type ∈ payloadTypes content) :
    ∃ payload, encodePayload content = some payload ∧ payload.length = type.payloadSize ∧
      DecodesTo type payload content := by
  cases content with
  | monostate => simp [payloadTypes] at h
  | orderAccepted event =>
    refine ⟨_, encodeFields_eq (orderAcceptedFields_contiguous event) (length_orderAccepted event)
      List.length_replicate, ?_⟩
    rw [length_orderAccepted]
    simp only [payloadTypes, List.mem_cons, List.not_mem_nil, or_false] at h
    obtain rfl | rfl := h <;>
      exact ⟨rfl, event, rfl, fun out => decodeOrderAccepted_record event out⟩
  | orderRejected event =>
    refine ⟨_, encodeFields_eq (orderRejectedFields_contiguous event) (length_orderRejected event)
      List.length_replicate, ?_⟩
    rw [length_orderRejected]
    simp only [payloadTypes, List.mem_cons, List.not_mem_nil, or_false] at h
    obtain rfl | rfl | rfl := h <;>
      exact ⟨rfl, event, rfl, fun out => decodeOrderRejected_record event out⟩
  | execution event =>
    obtain rfl := List.mem_singleton.mp h
    exact ⟨_, encodeFields_eq (executionFields_contiguous event) (length_execution event)
      List.length_replicate, length_execution event, event, rfl,
      fun out => decodeExecution_record event out⟩
  | cancelAccepted event =>
    obtain rfl := List.mem_singleton.mp h
    exact ⟨_, encodeFields_eq (cancelAcceptedFields_contiguous event) (length_cancelAccepted event)
      List.length_replicate, length_cancelAccepted event, event, rfl,
      fun out => decodeCancelAccepted_record event out⟩
  | protocolError event =>
    obtain rfl := List.mem_singleton.mp h
    exact ⟨_, encodeFields_eq (protocolErrorFields_contiguous event) (length_protocolError event)
      List.length_replicate, length_protocolError event, event, rfl,
      fun out => decodeProtocolError_record event out⟩

theorem expectedPayloadLength_value (type : MessageType) :
    ∃ size, expectedPayloadLength type.value = some size ∧ size.toNat = type.payloadSize := by
  have hle := type.payloadSize_le
  refine ⟨UInt16.ofNat type.payloadSize, by simp [expectedPayloadLength], ?_⟩
  exact UInt16.toNat_ofNat_of_lt' (by rw [UInt16.size]; omega)

theorem serializeOutbound_framed {msg : OutboundMessage} (h : Sendable msg) :
    Framed msg (serializeOutbound msg) := by
  obtain ⟨payload, hencode, hsize, hdecodes⟩ := encodePayload_spec h.type
  obtain ⟨size, hexpected, hsizeNat⟩ := expectedPayloadLength_value msg.type
  have hframe : serializeOutbound msg =
      LittleEndian.record (headerFields ⟨kMagic, kVersion, msg.type.value, msg.flags,
        UInt16.ofNat payload.length⟩) ++ payload := by
    rw [serializeOutbound, hencode]
    simp only [encodeFrame_eq msg.type payload (List.length_replicate ..).ge, Option.getD_some]
    rw [List.drop_eq_nil_of_le (by simp), List.append_nil]
  have hlength : UInt16.ofNat payload.length = size := by
    apply UInt16.toNat_inj.mp
    rw [hsize, hsizeNat]
    have := msg.type.payloadSize_le
    exact UInt16.toNat_ofNat_of_lt' (by rw [UInt16.size]; omega)
  have hheader := length_header ⟨kMagic, kVersion, msg.type.value, msg.flags,
    UInt16.ofNat payload.length⟩
  rw [hframe]
  refine ⟨?_, ⟨_, decodeHeader_record _ _, ?_, rfl, rfl⟩, ?_, size, hexpected, ?_⟩
  · intro hnil
    rw [(List.append_eq_nil_iff.mp hnil).1] at hheader
    cases hheader
  · have hmax : ¬ kMaxPayloadLength < size := by
      rw [UInt16.lt_iff_toNat_lt, hsizeNat]
      have := msg.type.payloadSize_le
      have : kMaxPayloadLength.toNat = 1024 := rfl
      omega
    simp [validateHeader, hexpected, hlength, hmax, h.flags]
  · rw [List.drop_left' hheader]
    exact hdecodes
  · rw [List.length_append, hheader, hsize, hsizeNat]

/-- An error frame is what the message of a protocol error is serialized to. -/
theorem makeErrorFrame_eq (code : ErrorCode) (offendingType : UInt8) :
    makeErrorFrame code offendingType =
      serializeOutbound ⟨0, .protocolError, 0, .protocolError ⟨code, offendingType⟩⟩ := rfl

theorem makeErrorFrame_framed (code : ErrorCode) (offendingType : UInt8) :
    Framed ⟨0, .protocolError, 0, .protocolError ⟨code, offendingType⟩⟩
      (makeErrorFrame code offendingType) := by
  have hflags : flagsReservedBitsClear 0 = true := by decide
  rw [makeErrorFrame_eq]
  exact serializeOutbound_framed ⟨List.mem_singleton.mpr rfl, hflags⟩

theorem makeErrorFrame_ne_nil (code : ErrorCode) (offendingType : UInt8) :
    makeErrorFrame code offendingType ≠ [] := (makeErrorFrame_framed code offendingType).nonempty

end LowLatencyExchange
