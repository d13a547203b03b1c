import LowLatencyExchange.Protocol.Canonical
import LowLatencyExchange.Protocol.Events
import Mathlib.Tactic

/-!
# Event payloads and their spellings

Encoding the event that a payload was decoded to gives the payload back, for each of the
five outbound decoders, except for a reject that carries the order id 0: it is decoded to the
id 1 and so shares its event with the reject of order 1.
-/
namespace LowLatencyExchange.Protocol

open LittleEndian

variable {A : Type}

/-- Encoding the event that a payload is decoded to gives the payload back. -/
def Reproduces (size : Nat) (decode : List UInt8 → A → Option ErrorCode × A)
    (encode : A → List UInt8 → Option (List UInt8)) (payload : List UInt8) : Prop :=
  ∀ out event span, decode payload out = (none, event) → span.length = size →
    encode event span = some payload

/-- Two payloads decode to one event. -/
def SameEvent (decode : List UInt8 → A → Option ErrorCode × A) (p q : List UInt8) : Prop :=
  ∃ out out' event, decode p out = (none, event) ∧ decode q out' = (none, event)

/-- An accepted payload is the only spelling of its event, but for those of one kind. -/
structure Spelling (size : Nat) (decode : List UInt8 → A → Option ErrorCode × A)
    (encode : A → List UInt8 → Option (List UInt8)) (doubtful : List UInt8 → Prop)
    (p q : List UInt8) : Prop where
  reproduces_iff : ∀ out, (decode p out).1 = none →
    (Reproduces size decode encode p ↔ ¬ doubtful p)
  eq_iff : SameEvent decode p q → (p = q ↔ (doubtful p ↔ doubtful q))

/-- A decoder that only accepts records of its events leaves no doubt. -/
theorem spelling_of_record {size : Nat} {fields : A → List (Nat × List UInt8)}
    {decode : List UInt8 → A → Option ErrorCode × A}
    (hcontiguous : ∀ a, Contiguous 0 (fields a)) (hsize : ∀ a, (record (fields a)).length = size)
    (hrecord : ∀ payload out a, decode payload out = (none, a) → payload = record (fields a))
    (p q : List UInt8) :
    Spelling size decode (fun a => encodeFields size (fields a)) (fun _ => False) p q where
  reproduces_iff _ _ := by
    refine iff_of_true ?_ not_false
    intro out event span h hspan
    exact (encodeFields_eq (hcontiguous event) (hsize event) hspan).trans
      (congrArg some (hrecord p out event h).symm)
  eq_iff := by
    rintro ⟨out, out', event, hp, hq⟩
    refine iff_of_true ?_ Iff.rfl
    rw [hrecord p out event hp, hrecord q out' event hq]

/-! ## Fields that were read -/

theorem toNat_read2 (offset : Nat) (payload : List UInt8) :
    (UInt16.ofNat (read 2 offset payload)).toNat = read 2 offset payload :=
  UInt16.toNat_ofNat_of_lt' (read_lt 2 offset payload)

theorem toNat_read8 (offset : Nat) (payload : List UInt8) :
    (UInt64.ofNat (read 8 offset payload)).toNat = read 8 offset payload :=
  UInt64.toNat_ofNat_of_lt' (read_lt 8 offset payload)

/-! ## The decoders -/

theorem orderAccepted_record {payload : List UInt8} {out event : OrderAcceptedEvent}
    (h : decodeOrderAccepted payload out = (none, event)) :
    payload = record (orderAcceptedFields event) := by
  unfold decodeOrderAccepted at h
  split_ifs at h with hlen
  · cases h
  simp only [ne_eq, not_not] at hlen
  split at h
  · rename_i seq oid hseq hoid
    cases h
    refine (record_eq (orderAcceptedFields_contiguous _) ?_ ?_).symm
    · simp only [kOrderAcceptedSize] at hlen
      simp only [orderAcceptedFields, List.forall_mem_cons, length_bytes,
        SequenceNumber.value_of_fromValue hseq, OrderId.value_of_fromValue hoid, toNat_read8]
      refine ⟨bytes_read ?_, bytes_read ?_, bytes_read ?_, by simp⟩ <;>
        simp only [kSequenceOffset, kOrderIdOffset, kRemainingQuantityOffset] <;> omega
    · rw [length_orderAccepted, hlen]
  · cases h

theorem execution_record {payload : List UInt8} {out event : ExecutionEvent}
    (h : decodeExecution payload out = (none, event)) :
    payload = record (executionFields event) := by
  unfold decodeExecution at h
  split_ifs at h with hlen
  · cases h
  simp only [ne_eq, not_not] at hlen
  split at h
  · rename_i seq resting incoming price qty hseq hresting hincoming hprice hqty
    cases h
    refine (record_eq (executionFields_contiguous _) ?_ ?_).symm
    · simp only [kExecutionSize] at hlen
      simp only [executionFields, List.forall_mem_cons, length_bytes, length_i64Bytes,
        SequenceNumber.value_of_fromValue hseq, OrderId.value_of_fromValue hresting,
        OrderId.value_of_fromValue hincoming, Price.ticks_of_fromTicks hprice,
        Quantity.units_of_fromUnits hqty]
      refine ⟨bytes_read ?_, bytes_read ?_, bytes_read ?_, i64Bytes_readI64 ?_, bytes_read ?_,
        by simp⟩ <;>
        simp only [kSequenceOffset, kExecutionRestingIdOffset, kExecutionIncomingIdOffset,
          kExecutionPriceOffset, kExecutionQuantityOffset] <;> omega
    · rw [length_execution, hlen]
  · cases h

theorem cancelAccepted_record {payload : List UInt8} {out event : CancelAcceptedEvent}
    (h : decodeCancelAccepted payload out = (none, event)) :
    payload = record (cancelAcceptedFields event) := by
  unfold decodeCancelAccepted at h
  split_ifs at h with hlen
  · cases h
  simp only [ne_eq, not_not] at hlen
  split at h
  · rename_i seq oid qty hseq hoid hqty
    cases h
    refine (record_eq (cancelAcceptedFields_contiguous _) ?_ ?_).symm
    · simp only [kCancelAcceptedSize] at hlen
      simp only [cancelAcceptedFields, List.forall_mem_cons, length_bytes,
        SequenceNumber.value_of_fromValue hseq, OrderId.value_of_fromValue hoid,
        Quantity.units_of_fromUnits hqty]
      refine ⟨bytes_read ?_, bytes_read ?_, bytes_read ?_, by simp⟩ <;>
        simp only [kSequenceOffset, kOrderIdOffset, kCancelledQuantityOffset] <;> omega
    · rw [length_cancelAccepted, hlen]
  · cases h

theorem protocolError_record {payload : List UInt8} {out event : ProtocolErrorEvent}
    (h : decodeProtocolError payload out = (none, event)) :
    payload = record (protocolErrorFields event) := by
  unfold decodeProtocolError at h
  split_ifs at h with hlen hreserved
  · cases h
  · cases h
  simp only [ne_eq, not_not] at hlen
  cases h
  refine (record_eq (protocolErrorFields_contiguous _) ?_ ?_).symm
  · simp only [kProtocolErrorSize] at hlen
    simp only [protocolErrorFields, List.forall_mem_cons, length_bytes, List.length_singleton,
      List.length_replicate, ErrorCode.value_cast, toNat_read2]
    refine ⟨bytes_read ?_, singleton_getD ?_,
      replicate_eq_of_reserved ?_ (Bool.eq_false_iff.mpr hreserved), by simp⟩ <;>
      simp only [kProtocolErrorCodeOffset, kProtocolErrorTypeOffset, kProtocolErrorReservedOffset,
        kProtocolErrorReservedSize] <;> omega
  · rw [length_protocolError, hlen]

/-! ## Rejects -/

/-- The order id of a reject payload is the one that stands for an id that was not parsed. -/
def UnparsedOrderId (payload : List UInt8) : Prop := read 8 kOrderIdOffset payload = 0

/-- The stores of `encode_order_rejected`, for any number in the place of the order id. -/
def rejectFields (event : OrderRejectedEvent) (orderId : Nat) : List (Nat × List UInt8) :=
  [(kSequenceOffset, bytes 8 event.sequence.value),
    (kOrderIdOffset, bytes 8 orderId),
    (kRejectErrorCodeOffset, bytes 2 event.errorCode.value.toNat),
    (kRejectReservedOffset, List.replicate kRejectReservedSize 0)]

/-- A reject payload is its event, but for the order id, which is the payload's own. -/
theorem orderRejected_record {payload : List UInt8} {out event : OrderRejectedEvent}
    (h : decodeOrderRejected payload out = (none, event)) :
    payload = record (rejectFields event (read 8 kOrderIdOffset payload)) ∧
      (¬ UnparsedOrderId payload → event.orderId.value = read 8 kOrderIdOffset payload) := by
  unfold decodeOrderRejected at h
  split_ifs at h with hlen hreserved
  · cases h
  · cases h
  simp only [ne_eq, not_not] at hlen
  split at h
  · cases h
  · rename_i seq hseq
    cases h
    refine ⟨(record_eq ?_ ?_ ?_).symm, ?_⟩
    · simp [rejectFields, Contiguous, kSequenceOffset, kOrderIdOffset, kRejectErrorCodeOffset,
        kRejectReservedOffset]
    · simp only [kOrderRejectedSize] at hlen
      simp only [rejectFields, List.forall_mem_cons, length_bytes, List.length_replicate,
        SequenceNumber.value_of_fromValue hseq, ErrorCode.value_cast, toNat_read2]
      refine ⟨bytes_read ?_, bytes_read ?_, bytes_read ?_,
        replicate_eq_of_reserved ?_ (Bool.eq_false_iff.mpr hreserved), by simp⟩ <;>
        simp only [kSequenceOffset, kOrderIdOffset, kRejectErrorCodeOffset, kRejectReservedOffset,
          kRejectReservedSize] <;> omega
    · simp [record, rejectFields, hlen, kRejectReservedSize, kOrderRejectedSize]
    · intro hid
      have hlt : read 8 kOrderIdOffset payload < 2 ^ 64 := read_lt 8 kOrderIdOffset payload
      have hsome := OrderId.fromValue_value ⟨_, Nat.pos_of_ne_zero hid, hlt⟩
      simp only at hsome
      rw [hsome, Option.getD_some]

theorem orderRejected_record_of_parsed {payload : List UInt8} {out event : OrderRejectedEvent}
    (h : decodeOrderRejected payload out = (none, event)) (hid : ¬ UnparsedOrderId payload) :
    payload = record (orderRejectedFields event) := by
  obtain ⟨hpayload, hvalue⟩ := orderRejected_record h
  rwa [← hvalue hid] at hpayload

/-- What is encoded carries a parsed order id. -/
theorem not_unparsed_record (event : OrderRejectedEvent) :
    ¬ UnparsedOrderId (record (orderRejectedFields event)) := by
  have hread : read 8 kOrderIdOffset (record (orderRejectedFields event)) = event.orderId.value :=
    readU64_record (orderRejectedFields_contiguous event) (by simp [orderRejectedFields])
      event.orderId.lt
  have hpos := event.orderId.pos
  unfold UnparsedOrderId
  omega

theorem orderRejected_spelling (p q : List UInt8) :
    Spelling kOrderRejectedSize decodeOrderRejected encodeOrderRejected UnparsedOrderId p q where
  reproduces_iff out haccepted := by
    have hdecode : decodeOrderRejected p out = (none, (decodeOrderRejected p out).2) :=
      Prod.ext haccepted rfl
    constructor
    · intro hr hid
      have hencode := hr out _ (List.replicate kOrderRejectedSize 0) hdecode List.length_replicate
      rw [encodeOrderRejected, encodeFields_eq (orderRejectedFields_contiguous _)
        (length_orderRejected _) List.length_replicate, Option.some.injEq] at hencode
      exact not_unparsed_record _ (hencode ▸ hid)
    · intro hid out event span h hspan
      rw [encodeOrderRejected, encodeFields_eq (orderRejectedFields_contiguous _)
        (length_orderRejected _) hspan, ← orderRejected_record_of_parsed h hid]
  eq_iff := by
    rintro ⟨out, out', event, hp, hq⟩
    constructor
    · rintro rfl
      rfl
    · intro hiff
      by_cases hid : UnparsedOrderId p
      · -- both ids are 0, and the events agree on the rest
        have hid' : UnparsedOrderId q := hiff.mp hid
        obtain ⟨hpayload, -⟩ := orderRejected_record hp
        obtain ⟨hpayload', -⟩ := orderRejected_record hq
        rw [hid] at hpayload
        rw [hid'] at hpayload'
        exact hpayload.trans hpayload'.symm
      · have hid' : ¬ UnparsedOrderId q := fun h => hid (hiff.mpr h)
        exact (orderRejected_record_of_parsed hp hid).trans
          (orderRejected_record_of_parsed hq hid').symm

/-- Each payload that an outbound decoder accepts is what its event is encoded to, and no other
payload decodes to the same event, unless it is a reject with the order id 0. -/
theorem event_payloads_spelling (p q : List UInt8) :
    Spelling kOrderAcceptedSize decodeOrderAccepted encodeOrderAccepted (fun _ => False) p q ∧
    Spelling kOrderRejectedSize decodeOrderRejected encodeOrderRejected UnparsedOrderId p q ∧
    Spelling kExecutionSize decodeExecution encodeExecution (fun _ => False) p q ∧
    Spelling kCancelAcceptedSize decodeCancelAccepted encodeCancelAccepted (fun _ => False) p q ∧
    Spelling kProtocolErrorSize decodeProtocolError encodeProtocolError (fun _ => False) p q := by
  refine ⟨?_, orderRejected_spelling p q, ?_, ?_, ?_⟩
  · exact spelling_of_record orderAcceptedFields_contiguous length_orderAccepted
      (fun _ _ _ h => orderAccepted_record h) p q
  · exact spelling_of_record executionFields_contiguous length_execution
      (fun _ _ _ h => execution_record h) p q
  · exact spelling_of_record cancelAcceptedFields_contiguous length_cancelAccepted
      (fun _ _ _ h => cancelAccepted_record h) p q
  · exact spelling_of_record protocolErrorFields_contiguous length_protocolError
      (fun _ _ _ h => protocolError_record h) p q

/-- The reject of an order that could not be parsed and the reject of order 1 are two payloads
of one event. -/
theorem order_rejected_confused :
    let unparsed : List UInt8 :=
      [7, 0, 0, 0, 0, 0, 0, 0, 0, 0, 0, 0, 0, 0, 0, 0, 6, 0, 0, 0, 0, 0, 0, 0]
    let parsed : List UInt8 :=
      [7, 0, 0, 0, 0, 0, 0, 0, 1, 0, 0, 0, 0, 0, 0, 0, 6, 0, 0, 0, 0, 0, 0, 0]
    let event : OrderRejectedEvent := ⟨SequenceNumber.of 7, OrderId.of 1, .invalidField⟩
    (∀ out, decodeOrderRejected unparsed out = (none, event) ∧
      decodeOrderRejected parsed out = (none, event)) ∧
    encodeOrderRejected event (List.replicate kOrderRejectedSize 0) = some parsed ∧
    unparsed ≠ parsed := by
  refine ⟨fun out => ⟨rfl, rfl⟩, by decide +kernel, by decide⟩

end LowLatencyExchange.Protocol
