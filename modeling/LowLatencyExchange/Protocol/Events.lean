import LowLatencyExchange.Protocol.Commands
import Mathlib.Data.List.GetD
import Mathlib.Tactic

/-!
# Payloads of outbound events

The codecs of the events that the engine and the gateway send, and `encode_frame`.
-/
namespace LowLatencyExchange.Protocol

open LittleEndian

structure OrderAcceptedEvent where
  sequence : SequenceNumber
  orderId : OrderId
  remainingQuantity : UInt64
  deriving DecidableEq

structure OrderRejectedEvent where
  sequence : SequenceNumber
  orderId : OrderId
  errorCode : ErrorCode
  deriving DecidableEq

structure ExecutionEvent where
  sequence : SequenceNumber
  restingOrderId : OrderId
  incomingOrderId : OrderId
  price : Price
  quantity : Quantity
  deriving DecidableEq

structure CancelAcceptedEvent where
  sequence : SequenceNumber
  orderId : OrderId
  cancelledQuantity : Quantity
  deriving DecidableEq

structure ProtocolErrorEvent where
  errorCode : ErrorCode
  offendingType : UInt8
  deriving DecidableEq

/-- `to_error_code` of an order's rejection; cancels and replaces have one reason only. -/
def toErrorCode : OrderRejectReason → ErrorCode
  | .invalidOrder => .invalidOrder
  | .marketOrdersNotSupported => .invalidOrder
  | .duplicateOrderId => .duplicateOrderId

def cancelErrorCode : CancelRejectReason → ErrorCode
  | .orderNotFound => .orderNotFound

def replaceErrorCode : ReplaceRejectReason → ErrorCode
  | .orderNotFound => .orderNotFound

def kRemainingQuantityOffset : Nat := 16
def kRejectErrorCodeOffset : Nat := 16
def kRejectReservedOffset : Nat := 18
def kRejectReservedSize : Nat := 6
def kExecutionRestingIdOffset : Nat := 8
def kExecutionIncomingIdOffset : Nat := 16
def kExecutionPriceOffset : Nat := 24
def kExecutionQuantityOffset : Nat := 32
def kCancelledQuantityOffset : Nat := 16
def kProtocolErrorCodeOffset : Nat := 0
def kProtocolErrorTypeOffset : Nat := 2
def kProtocolErrorReservedOffset : Nat := 3
def kProtocolErrorReservedSize : Nat := 5

/-! ## Encoders -/

def orderAcceptedFields (event : OrderAcceptedEvent) : List (Nat × List UInt8) :=
  [(kSequenceOffset, bytes 8 event.sequence.value),
    (kOrderIdOffset, bytes 8 event.orderId.value),
    (kRemainingQuantityOffset, bytes 8 event.remainingQuantity.toNat)]

def orderRejectedFields (event : OrderRejectedEvent) : List (Nat × List UInt8) :=
  [(kSequenceOffset, bytes 8 event.sequence.value),
    (kOrderIdOffset, bytes 8 event.orderId.value),
    (kRejectErrorCodeOffset, bytes 2 event.errorCode.value.toNat),
    (kRejectReservedOffset, List.replicate kRejectReservedSize 0)]

def executionFields (event : ExecutionEvent) : List (Nat × List UInt8) :=
  [(kSequenceOffset, bytes 8 event.sequence.value),
    (kExecutionRestingIdOffset, bytes 8 event.restingOrderId.value),
    (kExecutionIncomingIdOffset, bytes 8 event.incomingOrderId.value),
    (kExecutionPriceOffset, i64Bytes event.price.ticks),
    (kExecutionQuantityOffset, bytes 8 event.quantity.units)]

def cancelAcceptedFields (event : CancelAcceptedEvent) : List (Nat × List UInt8) :=
  [(kSequenceOffset, bytes 8 event.sequence.value),
    (kOrderIdOffset, bytes 8 event.orderId.value),
    (kCancelledQuantityOffset, bytes 8 event.cancelledQuantity.units)]

def protocolErrorFields (event : ProtocolErrorEvent) : List (Nat × List UInt8) :=
  [(kProtocolErrorCodeOffset, bytes 2 event.errorCode.value.toNat),
    (kProtocolErrorTypeOffset, [event.offendingType]),
    (kProtocolErrorReservedOffset, List.replicate kProtocolErrorReservedSize 0)]

def encodeOrderAccepted (event : OrderAcceptedEvent) (out : List UInt8) : Option (List UInt8) :=
  encodeFields kOrderAcceptedSize (orderAcceptedFields event) out

def encodeOrderRejected (event : OrderRejectedEvent) (out : List UInt8) : Option (List UInt8) :=
  encodeFields kOrderRejectedSize (orderRejectedFields event) out

def encodeExecution (event : ExecutionEvent) (out : List UInt8) : Option (List UInt8) :=
  encodeFields kExecutionSize (executionFields event) out

def encodeCancelAccepted (event : CancelAcceptedEvent) (out : List UInt8) : Option (List UInt8) :=
  encodeFields kCancelAcceptedSize (cancelAcceptedFields event) out

def encodeProtocolError (event : ProtocolErrorEvent) (out : List UInt8) : Option (List UInt8) :=
  encodeFields kProtocolErrorSize (protocolErrorFields event) out

/-! ## Decoders -/

def decodeOrderAccepted (payload : List UInt8) (out : OrderAcceptedEvent) :
    Option ErrorCode × OrderAcceptedEvent :=
  if payload.length ≠ kOrderAcceptedSize then (some .payloadLengthInvalid, out)
  else
    match SequenceNumber.fromValue (read 8 kSequenceOffset payload),
      OrderId.fromValue (read 8 kOrderIdOffset payload) with
    | some seq, some oid =>
      (none, ⟨seq, oid, UInt64.ofNat (read 8 kRemainingQuantityOffset payload)⟩)
    | _, _ => (some .invalidField, out)

/-- An order id of 0 is read as the id 1. -/
def decodeOrderRejected (payload : List UInt8) (out : OrderRejectedEvent) :
    Option ErrorCode × OrderRejectedEvent :=
  if payload.length ≠ kOrderRejectedSize then (some .payloadLengthInvalid, out)
  else if reservedSet kRejectReservedOffset kRejectReservedSize payload then
    (some .invalidField, out)
  else
    match SequenceNumber.fromValue (read 8 kSequenceOffset payload) with
    | none => (some .invalidField, out)
    | some seq =>
      let oid := (OrderId.fromValue (read 8 kOrderIdOffset payload)).getD (OrderId.of 1)
      (none, ⟨seq, oid, ErrorCode.cast (UInt16.ofNat (read 2 kRejectErrorCodeOffset payload))⟩)

def decodeExecution (payload : List UInt8) (out : ExecutionEvent) :
    Option ErrorCode × ExecutionEvent :=
  if payload.length ≠ kExecutionSize then (some .payloadLengthInvalid, out)
  else
    match SequenceNumber.fromValue (read 8 kSequenceOffset payload),
      OrderId.fromValue (read 8 kExecutionRestingIdOffset payload),
      OrderId.fromValue (read 8 kExecutionIncomingIdOffset payload),
      Price.fromTicks (readI64 kExecutionPriceOffset payload),
      Quantity.fromUnits (read 8 kExecutionQuantityOffset payload) with
    | some seq, some restingOid, some incomingOid, some price, some qty =>
      (none, ⟨seq, restingOid, incomingOid, price, qty⟩)
    | _, _, _, _, _ => (some .invalidField, out)

def decodeCancelAccepted (payload : List UInt8) (out : CancelAcceptedEvent) :
    Option ErrorCode × CancelAcceptedEvent :=
  if payload.length ≠ kCancelAcceptedSize then (some .payloadLengthInvalid, out)
  else
    match SequenceNumber.fromValue (read 8 kSequenceOffset payload),
      OrderId.fromValue (read 8 kOrderIdOffset payload),
      Quantity.fromUnits (read 8 kCancelledQuantityOffset payload) with
    | some seq, some oid, some qty => (none, ⟨seq, oid, qty⟩)
    | _, _, _ => (some .invalidField, out)

def decodeProtocolError (payload : List UInt8) (out : ProtocolErrorEvent) :
    Option ErrorCode × ProtocolErrorEvent :=
  if payload.length ≠ kProtocolErrorSize then (some .payloadLengthInvalid, out)
  else if reservedSet kProtocolErrorReservedOffset kProtocolErrorReservedSize payload then
    (some .invalidField, out)
  else
    (none, ⟨ErrorCode.cast (UInt16.ofNat (read 2 kProtocolErrorCodeOffset payload)),
      payload.getD kProtocolErrorTypeOffset 0⟩)

/-! ## Frames -/

def encodeFrame (type : MessageType) (payload out : List UInt8) (flags : UInt16) :
    Option (List UInt8) :=
  if out.length < kHeaderSize + payload.length then none
  else
    let header : WireHeader :=
      ⟨kMagic, kVersion, type.value, flags, UInt16.ofNat payload.length⟩
    match encodeHeader header (out.take kHeaderSize) with
    | none => none
    | some encoded => some (write kHeaderSize payload (encoded ++ out.drop kHeaderSize))

theorem headerFields_contiguous (header : WireHeader) : Contiguous 0 (headerFields header) := by
  simp [headerFields, Contiguous]

theorem length_header (header : WireHeader) :
    (record (headerFields header)).length = kHeaderSize := by
  simp [record, headerFields, kHeaderSize]

/-- A frame is its header and its payload, in front of what the span held. -/
theorem encodeFrame_eq (type : MessageType) (payload : List UInt8) {out : List UInt8}
    (h : kHeaderSize + payload.length ≤ out.length) (flags : UInt16) :
    encodeFrame type payload out flags =
      some (record (headerFields ⟨kMagic, kVersion, type.value, flags,
        UInt16.ofNat payload.length⟩) ++ payload ++ out.drop (kHeaderSize + payload.length)) := by
  have htake : (out.take kHeaderSize).length = kHeaderSize :=
    List.length_take_of_le (by omega)
  have hheader : ∀ header, encodeHeader header (out.take kHeaderSize) =
      some (record (headerFields header)) := by
    intro header
    rw [encodeHeader, if_neg (by omega), writeAll_eq (headerFields_contiguous _), length_header,
      List.drop_eq_nil_of_le htake.le, List.append_nil]
  rw [encodeFrame, if_neg (by omega)]
  simp only [hheader, write]
  rw [List.take_left' (length_header _), List.drop_append, length_header,
    List.drop_eq_nil_of_le (by rw [length_header]; omega), List.nil_append,
    Nat.add_sub_cancel_left, List.drop_drop]

/-! ## Decoding what was encoded -/

/-- A 16-bit field, read back. -/
theorem readU16_record {fields : List (Nat × List UInt8)} (h : Contiguous 0 fields) {offset : Nat}
    {n : UInt16} (hm : (offset, bytes 2 n.toNat) ∈ fields) :
    UInt16.ofNat (read 2 offset (record fields)) = n := by
  have hread := read_record h hm
  rw [length_bytes] at hread
  rw [hread, value_bytes_of_lt n.toNat_lt, UInt16.ofNat_toNat]

/-- Reserved bytes that were written as zeros are found to be zeros. -/
theorem reservedSet_record {fields : List (Nat × List UInt8)} (h : Contiguous 0 fields)
    {offset size : Nat} (hm : (offset, List.replicate size 0) ∈ fields) :
    reservedSet offset size (record fields) = false := by
  refine List.any_eq_false.mpr fun i hi => ?_
  have hi' : i < (List.replicate size (0 : UInt8)).length := by
    simpa using List.mem_range.mp hi
  rw [getD_record h hm hi', List.getD_eq_getElem?_getD, List.getElem?_eq_getElem hi',
    List.getElem_replicate]
  decide

section Contiguous

variable (accepted : OrderAcceptedEvent) (rejected : OrderRejectedEvent)
  (execution : ExecutionEvent) (cancelled : CancelAcceptedEvent) (error : ProtocolErrorEvent)

theorem orderAcceptedFields_contiguous : Contiguous 0 (orderAcceptedFields accepted) := by
  simp [orderAcceptedFields, Contiguous, kSequenceOffset, kOrderIdOffset, kRemainingQuantityOffset]

theorem orderRejectedFields_contiguous : Contiguous 0 (orderRejectedFields rejected) := by
  simp [orderRejectedFields, Contiguous, kSequenceOffset, kOrderIdOffset, kRejectErrorCodeOffset,
    kRejectReservedOffset]

theorem executionFields_contiguous : Contiguous 0 (executionFields execution) := by
  simp [executionFields, Contiguous, kSequenceOffset, kExecutionRestingIdOffset,
    kExecutionIncomingIdOffset, kExecutionPriceOffset, kExecutionQuantityOffset]

theorem cancelAcceptedFields_contiguous : Contiguous 0 (cancelAcceptedFields cancelled) := by
  simp [cancelAcceptedFields, Contiguous, kSequenceOffset, kOrderIdOffset,
    kCancelledQuantityOffset]

theorem protocolErrorFields_contiguous : Contiguous 0 (protocolErrorFields error) := by
  simp [protocolErrorFields, Contiguous, kProtocolErrorCodeOffset, kProtocolErrorTypeOffset,
    kProtocolErrorReservedOffset]

theorem length_orderAccepted :
    (record (orderAcceptedFields accepted)).length = kOrderAcceptedSize := by
  simp [record, orderAcceptedFields, kOrderAcceptedSize]

theorem length_orderRejected :
    (record (orderRejectedFields rejected)).length = kOrderRejectedSize := by
  simp [record, orderRejectedFields, kRejectReservedSize, kOrderRejectedSize]

theorem length_execution : (record (executionFields execution)).length = kExecutionSize := by
  simp [record, executionFields, kExecutionSize]

theorem length_cancelAccepted :
    (record (cancelAcceptedFields cancelled)).length = kCancelAcceptedSize := by
  simp [record, cancelAcceptedFields, kCancelAcceptedSize]

theorem length_protocolError :
    (record (protocolErrorFields error)).length = kProtocolErrorSize := by
  simp [record, protocolErrorFields, kProtocolErrorReservedSize, kProtocolErrorSize]

end Contiguous

theorem decodeOrderAccepted_record (event out : OrderAcceptedEvent) :
    decodeOrderAccepted (record (orderAcceptedFields event)) out = (none, event) := by
  have hc := orderAcceptedFields_contiguous event
  have hseq : read 8 kSequenceOffset (record (orderAcceptedFields event)) = event.sequence.value :=
    readU64_record hc (by simp [orderAcceptedFields]) event.sequence.lt
  have hoid : read 8 kOrderIdOffset (record (orderAcceptedFields event)) = event.orderId.value :=
    readU64_record hc (by simp [orderAcceptedFields]) event.orderId.lt
  have hqty : read 8 kRemainingQuantityOffset (record (orderAcceptedFields event)) =
      event.remainingQuantity.toNat :=
    readU64_record hc (by simp [orderAcceptedFields]) event.remainingQuantity.toNat_lt
  rw [decodeOrderAccepted, if_neg (not_not.mpr (length_orderAccepted event)), hseq, hoid, hqty,
    SequenceNumber.fromValue_value, OrderId.fromValue_value, UInt64.ofNat_toNat]

theorem decodeOrderRejected_record (event out : OrderRejectedEvent) :
    decodeOrderRejected (record (orderRejectedFields event)) out = (none, event) := by
  have hc := orderRejectedFields_contiguous event
  have hseq : read 8 kSequenceOffset (record (orderRejectedFields event)) = event.sequence.value :=
    readU64_record hc (by simp [orderRejectedFields]) event.sequence.lt
  have hoid : read 8 kOrderIdOffset (record (orderRejectedFields event)) = event.orderId.value :=
    readU64_record hc (by simp [orderRejectedFields]) event.orderId.lt
  have hcode : UInt16.ofNat (read 2 kRejectErrorCodeOffset (record (orderRejectedFields event))) =
      event.errorCode.value := readU16_record hc (by simp [orderRejectedFields])
  have hreserved : reservedSet kRejectReservedOffset kRejectReservedSize
      (record (orderRejectedFields event)) = false :=
    reservedSet_record hc (by simp [orderRejectedFields])
  rw [decodeOrderRejected, if_neg (not_not.mpr (length_orderRejected event)), hreserved,
    if_neg Bool.false_ne_true, hseq, hoid, hcode, SequenceNumber.fromValue_value,
    OrderId.fromValue_value, ErrorCode.cast_value]
  rfl

theorem decodeExecution_record (event out : ExecutionEvent) :
    decodeExecution (record (executionFields event)) out = (none, event) := by
  have hc := executionFields_contiguous event
  have hseq : read 8 kSequenceOffset (record (executionFields event)) = event.sequence.value :=
    readU64_record hc (by simp [executionFields]) event.sequence.lt
  have hresting : read 8 kExecutionRestingIdOffset (record (executionFields event)) =
      event.restingOrderId.value :=
    readU64_record hc (by simp [executionFields]) event.restingOrderId.lt
  have hincoming : read 8 kExecutionIncomingIdOffset (record (executionFields event)) =
      event.incomingOrderId.value :=
    readU64_record hc (by simp [executionFields]) event.incomingOrderId.lt
  have hprice : readI64 kExecutionPriceOffset (record (executionFields event)) =
      event.price.ticks :=
    readI64_record hc (by simp [executionFields]) event.price.pos.le event.price.lt
  have hqty : read 8 kExecutionQuantityOffset (record (executionFields event)) =
      event.quantity.units :=
    readU64_record hc (by simp [executionFields]) event.quantity.lt
  rw [decodeExecution, if_neg (not_not.mpr (length_execution event)), hseq, hresting, hincoming,
    hprice, hqty, SequenceNumber.fromValue_value, OrderId.fromValue_value,
    OrderId.fromValue_value, Price.fromTicks_ticks, Quantity.fromUnits_units]

theorem decodeCancelAccepted_record (event out : CancelAcceptedEvent) :
    decodeCancelAccepted (record (cancelAcceptedFields event)) out = (none, event) := by
  have hc := cancelAcceptedFields_contiguous event
  have hseq : read 8 kSequenceOffset (record (cancelAcceptedFields event)) =
      event.sequence.value :=
    readU64_record hc (by simp [cancelAcceptedFields]) event.sequence.lt
  have hoid : read 8 kOrderIdOffset (record (cancelAcceptedFields event)) = event.orderId.value :=
    readU64_record hc (by simp [cancelAcceptedFields]) event.orderId.lt
  have hqty : read 8 kCancelledQuantityOffset (record (cancelAcceptedFields event)) =
      event.cancelledQuantity.units :=
    readU64_record hc (by simp [cancelAcceptedFields]) event.cancelledQuantity.lt
  rw [decodeCancelAccepted, if_neg (not_not.mpr (length_cancelAccepted event)), hseq, hoid, hqty,
    SequenceNumber.fromValue_value, OrderId.fromValue_value, Quantity.fromUnits_units]

theorem decodeProtocolError_record (event out : ProtocolErrorEvent) :
    decodeProtocolError (record (protocolErrorFields event)) out = (none, event) := by
  have hc := protocolErrorFields_contiguous event
  have hcode : UInt16.ofNat (read 2 kProtocolErrorCodeOffset (record (protocolErrorFields event))) =
      event.errorCode.value := readU16_record hc (by simp [protocolErrorFields])
  have htype : (record (protocolErrorFields event)).getD kProtocolErrorTypeOffset 0 =
      event.offendingType := byte_record hc (by simp [protocolErrorFields])
  have hreserved : reservedSet kProtocolErrorReservedOffset kProtocolErrorReservedSize
      (record (protocolErrorFields event)) = false :=
    reservedSet_record hc (by simp [protocolErrorFields])
  rw [decodeProtocolError, if_neg (not_not.mpr (length_protocolError event)), hreserved,
    if_neg Bool.false_ne_true, hcode, htype, ErrorCode.cast_value]

/-- The header of a frame, read back from its front. -/
theorem decodeHeader_record (header : WireHeader) (rest : List UInt8) :
    decodeHeader (record (headerFields header) ++ rest) = some header := by
  have hc := headerFields_contiguous header
  have hlen := length_header header
  simp only [kHeaderSize] at hlen
  have hmagic : UInt16.ofNat (read 2 0 (record (headerFields header))) = header.magic :=
    readU16_record hc (by simp [headerFields])
  have hflags : UInt16.ofNat (read 2 4 (record (headerFields header))) = header.flags :=
    readU16_record hc (by simp [headerFields])
  have hpayload : UInt16.ofNat (read 2 6 (record (headerFields header))) = header.payloadLength :=
    readU16_record hc (by simp [headerFields])
  have hversion : (record (headerFields header)).getD 2 0 = header.version :=
    byte_record hc (by simp [headerFields])
  have htype : (record (headerFields header)).getD 3 0 = header.type :=
    byte_record hc (by simp [headerFields])
  rw [decodeHeader, if_neg (by rw [List.length_append, kHeaderSize]; omega),
    read_append (by omega), read_append (by omega), read_append (by omega),
    List.getD_append _ _ _ _ (by omega), List.getD_append _ _ _ _ (by omega), hmagic, hflags,
    hpayload, hversion, htype]

end LowLatencyExchange.Protocol
