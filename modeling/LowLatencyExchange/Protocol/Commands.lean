import LowLatencyExchange.Protocol.Basic
import Mathlib.Tactic

/-!
# Payloads of inbound commands

The codecs of `new_order`, `cancel_order` and `replace_order`. A decoder takes the current
value of its `out` parameter and returns the error, if any, with the value `out` then has.
-/
namespace LowLatencyExchange.Protocol

open LittleEndian

def kSequenceOffset : Nat := 0
def kOrderIdOffset : Nat := 8
def kNewOrderQuantityOffset : Nat := 16
def kNewOrderPriceOffset : Nat := 24
def kNewOrderSideOffset : Nat := 32
def kNewOrderTypeOffset : Nat := 33
def kNewOrderReservedOffset : Nat := 34
def kNewOrderReservedSize : Nat := 6
def kReplaceQuantityOffset : Nat := 16
def kReplacePriceOffset : Nat := 24

/-! ## Signed fields -/

/-- The `std::int64_t` with the bits of a 64-bit number. -/
def toInt64 (n : Nat) : Int := if n < 2 ^ 63 then n else n - 2 ^ 64

def readI64 (offset : Nat) (buffer : List UInt8) : Int := toInt64 (read 8 offset buffer)

/-- The bytes of a `std::int64_t`. -/
def i64Bytes (n : Int) : List UInt8 := bytes 8 (n % 2 ^ 64).toNat

/-! ## Decoders -/

/-- A loop over reserved bytes that looks for one that is not zero. -/
def reservedSet (offset size : Nat) (payload : List UInt8) : Bool :=
  (List.range size).any (fun i => payload.getD (offset + i) 0 ≠ 0)

def decodeNewOrder (payload : List UInt8) (out : NewOrder) : Option ErrorCode × NewOrder :=
  if payload.length ≠ kNewOrderSize then (some .payloadLengthInvalid, out)
  else
    let seqVal := read 8 kSequenceOffset payload
    let oidVal := read 8 kOrderIdOffset payload
    let qtyVal := read 8 kNewOrderQuantityOffset payload
    let priceVal := readI64 kNewOrderPriceOffset payload
    let sideByte := payload.getD kNewOrderSideOffset 0
    let typeByte := payload.getD kNewOrderTypeOffset 0
    if reservedSet kNewOrderReservedOffset kNewOrderReservedSize payload then
      (some .invalidField, out)
    else if seqVal = 0 ∨ oidVal = 0 ∨ qtyVal = 0 ∨ 1 < sideByte ∨ 1 < typeByte ∨ priceVal < 0 then
      (some .invalidField, out)
    else
      match SequenceNumber.fromValue seqVal, OrderId.fromValue oidVal,
        Quantity.fromUnits qtyVal with
      | some seq, some oid, some qty =>
        let side : Side := if sideByte = 0 then .buy else .sell
        if typeByte = 0 then
          if priceVal = 0 then (some .limitOrderMissingPrice, out)
          else
            match Price.fromTicks priceVal with
            | none => (some .invalidField, out)
            | some limitPrice => (none, ⟨seq, oid, side, .limit, qty, some limitPrice⟩)
        else if priceVal ≠ 0 then (some .marketOrderHasPrice, out)
        else (none, ⟨seq, oid, side, .market, qty, none⟩)
      | _, _, _ => (some .invalidField, out)

def decodeCancelOrder (payload : List UInt8) (out : CancelOrder) :
    Option ErrorCode × CancelOrder :=
  if payload.length ≠ kCancelOrderSize then (some .payloadLengthInvalid, out)
  else
    let seqVal := read 8 kSequenceOffset payload
    let oidVal := read 8 kOrderIdOffset payload
    if seqVal = 0 ∨ oidVal = 0 then (some .invalidField, out)
    else
      match SequenceNumber.fromValue seqVal, OrderId.fromValue oidVal with
      | some seq, some oid => (none, ⟨seq, oid⟩)
      | _, _ => (some .invalidField, out)

def decodeReplaceOrder (payload : List UInt8) (out : ReplaceOrder) :
    Option ErrorCode × ReplaceOrder :=
  if payload.length ≠ kReplaceOrderSize then (some .payloadLengthInvalid, out)
  else
    let seqVal := read 8 kSequenceOffset payload
    let oidVal := read 8 kOrderIdOffset payload
    let qtyVal := read 8 kReplaceQuantityOffset payload
    let priceVal := readI64 kReplacePriceOffset payload
    if seqVal = 0 ∨ oidVal = 0 ∨ qtyVal = 0 ∨ priceVal ≤ 0 then (some .invalidField, out)
    else
      match SequenceNumber.fromValue seqVal, OrderId.fromValue oidVal,
        Quantity.fromUnits qtyVal, Price.fromTicks priceVal with
      | some seq, some oid, some qty, some price => (none, ⟨seq, oid, qty, price⟩)
      | _, _, _, _ => (some .invalidField, out)

/-- The values that a caller's locals hold before they are decoded into. -/
def initialNewOrder : NewOrder :=
  ⟨SequenceNumber.of 1, OrderId.of 1, .buy, .limit, Quantity.of 1, none⟩

def initialCancelOrder : CancelOrder := ⟨SequenceNumber.of 1, OrderId.of 1⟩

def initialReplaceOrder : ReplaceOrder :=
  ⟨SequenceNumber.of 1, OrderId.of 1, Quantity.of 1, Price.of 1⟩

/-! ## Encoders -/

def newOrderFields (order : NewOrder) : List (Nat × List UInt8) :=
  [(kSequenceOffset, bytes 8 order.sequence.value),
    (kOrderIdOffset, bytes 8 order.orderId.value),
    (kNewOrderQuantityOffset, bytes 8 order.quantity.units),
    (kNewOrderPriceOffset, i64Bytes (order.limitPrice.elim 0 Price.ticks)),
    (kNewOrderSideOffset, [if order.side = .buy then 0 else 1]),
    (kNewOrderTypeOffset, [if order.type = .limit then 0 else 1]),
    (kNewOrderReservedOffset, List.replicate kNewOrderReservedSize 0)]

def cancelOrderFields (order : CancelOrder) : List (Nat × List UInt8) :=
  [(kSequenceOffset, bytes 8 order.sequence.value),
    (kOrderIdOffset, bytes 8 order.orderId.value)]

def replaceOrderFields (order : ReplaceOrder) : List (Nat × List UInt8) :=
  [(kSequenceOffset, bytes 8 order.sequence.value),
    (kOrderIdOffset, bytes 8 order.orderId.value),
    (kReplaceQuantityOffset, bytes 8 order.newQuantity.units),
    (kReplacePriceOffset, i64Bytes order.newPrice.ticks)]

/-- An encoder checks the size of the span and stores its fields. -/
def encodeFields (size : Nat) (fields : List (Nat × List UInt8)) (out : List UInt8) :
    Option (List UInt8) :=
  if out.length < size then none else some (writeAll fields out)

def encodeNewOrder (order : NewOrder) (out : List UInt8) : Option (List UInt8) :=
  encodeFields kNewOrderSize (newOrderFields order) out

def encodeCancelOrder (order : CancelOrder) (out : List UInt8) : Option (List UInt8) :=
  encodeFields kCancelOrderSize (cancelOrderFields order) out

def encodeReplaceOrder (order : ReplaceOrder) (out : List UInt8) : Option (List UInt8) :=
  encodeFields kReplaceOrderSize (replaceOrderFields order) out

/-! ## Decoding what was encoded -/

@[simp] theorem length_i64Bytes (n : Int) : (i64Bytes n).length = 8 := length_bytes _ _

theorem toInt64_value {n : Int} (h0 : 0 ≤ n) (h : n < 2 ^ 63) :
    toInt64 (value (i64Bytes n)) = n := by
  have hlt : (n % 2 ^ 64).toNat < 256 ^ 8 := by omega
  rw [i64Bytes, value_bytes_of_lt hlt, toInt64, if_pos (by omega)]
  omega

/-- An encoder on a span of exactly the record's size leaves the record there. -/
theorem encodeFields_eq {size : Nat} {fields : List (Nat × List UInt8)} (h : Contiguous 0 fields)
    (hsize : (record fields).length = size) {out : List UInt8} (ho : out.length = size) :
    encodeFields size fields out = some (record fields) := by
  rw [encodeFields, if_neg (by omega), writeAll_eq h, List.drop_eq_nil_of_le (by omega),
    List.append_nil]

theorem newOrderFields_contiguous (order : NewOrder) : Contiguous 0 (newOrderFields order) := by
  simp [newOrderFields, Contiguous, kSequenceOffset, kOrderIdOffset, kNewOrderQuantityOffset,
    kNewOrderPriceOffset, kNewOrderSideOffset, kNewOrderTypeOffset, kNewOrderReservedOffset]

theorem cancelOrderFields_contiguous (order : CancelOrder) :
    Contiguous 0 (cancelOrderFields order) := by
  simp [cancelOrderFields, Contiguous, kSequenceOffset, kOrderIdOffset]

theorem replaceOrderFields_contiguous (order : ReplaceOrder) :
    Contiguous 0 (replaceOrderFields order) := by
  simp [replaceOrderFields, Contiguous, kSequenceOffset, kOrderIdOffset, kReplaceQuantityOffset,
    kReplacePriceOffset]

theorem length_newOrder (order : NewOrder) :
    (record (newOrderFields order)).length = kNewOrderSize := by
  simp [record, newOrderFields, kNewOrderReservedSize, kNewOrderSize]

theorem length_cancelOrder (order : CancelOrder) :
    (record (cancelOrderFields order)).length = kCancelOrderSize := by
  simp [record, cancelOrderFields, kCancelOrderSize]

theorem length_replaceOrder (order : ReplaceOrder) :
    (record (replaceOrderFields order)).length = kReplaceOrderSize := by
  simp [record, replaceOrderFields, kReplaceOrderSize]

/-- The price field of an order, read back. -/
theorem readI64_record {fields : List (Nat × List UInt8)} (h : Contiguous 0 fields) {offset : Nat}
    {n : Int} (hm : (offset, i64Bytes n) ∈ fields) (h0 : 0 ≤ n) (hn : n < 2 ^ 63) :
    readI64 offset (record fields) = n := by
  have := read_record h hm
  rw [length_i64Bytes] at this
  rw [readI64, this, toInt64_value h0 hn]

/-- A 64-bit field of an order, read back. -/
theorem readU64_record {fields : List (Nat × List UInt8)} (h : Contiguous 0 fields) {offset n : Nat}
    (hm : (offset, bytes 8 n) ∈ fields) (hn : n < 2 ^ 64) :
    read 8 offset (record fields) = n := by
  have := read_record h hm
  rw [length_bytes] at this
  rw [this, value_bytes_of_lt (by omega)]

theorem byte_record {fields : List (Nat × List UInt8)} (h : Contiguous 0 fields) {offset : Nat}
    {b : UInt8} (hm : (offset, [b]) ∈ fields) : (record fields).getD offset 0 = b :=
  getD_record h hm (i := 0) Nat.zero_lt_one

theorem decodeCancelOrder_record (order out : CancelOrder) :
    decodeCancelOrder (record (cancelOrderFields order)) out = (none, order) := by
  have hc := cancelOrderFields_contiguous order
  have hseq : read 8 kSequenceOffset (record (cancelOrderFields order)) = order.sequence.value :=
    readU64_record hc (by simp [cancelOrderFields]) order.sequence.lt
  have hoid : read 8 kOrderIdOffset (record (cancelOrderFields order)) = order.orderId.value :=
    readU64_record hc (by simp [cancelOrderFields]) order.orderId.lt
  have := order.sequence.pos
  have := order.orderId.pos
  rw [decodeCancelOrder, if_neg (not_not.mpr (length_cancelOrder order))]
  simp only [hseq, hoid]
  rw [if_neg (by omega), SequenceNumber.fromValue_value, OrderId.fromValue_value]

theorem decodeReplaceOrder_record (order out : ReplaceOrder) :
    decodeReplaceOrder (record (replaceOrderFields order)) out = (none, order) := by
  have hc := replaceOrderFields_contiguous order
  have hseq : read 8 kSequenceOffset (record (replaceOrderFields order)) = order.sequence.value :=
    readU64_record hc (by simp [replaceOrderFields]) order.sequence.lt
  have hoid : read 8 kOrderIdOffset (record (replaceOrderFields order)) = order.orderId.value :=
    readU64_record hc (by simp [replaceOrderFields]) order.orderId.lt
  have hqty : read 8 kReplaceQuantityOffset (record (replaceOrderFields order)) =
      order.newQuantity.units :=
    readU64_record hc (by simp [replaceOrderFields]) order.newQuantity.lt
  have hprice : readI64 kReplacePriceOffset (record (replaceOrderFields order)) =
      order.newPrice.ticks :=
    readI64_record hc (by simp [replaceOrderFields]) order.newPrice.pos.le order.newPrice.lt
  have := order.sequence.pos
  have := order.orderId.pos
  have := order.newQuantity.pos
  have := order.newPrice.pos
  rw [decodeReplaceOrder, if_neg (not_not.mpr (length_replaceOrder order))]
  simp only [hseq, hoid, hqty, hprice]
  rw [if_neg (by omega), SequenceNumber.fromValue_value, OrderId.fromValue_value,
    Quantity.fromUnits_units, Price.fromTicks_ticks]

/-- An order that passes `validate` is decoded from what it was encoded to. -/
theorem decodeNewOrder_record {order : NewOrder} (hv : validate order = none) (out : NewOrder) :
    decodeNewOrder (record (newOrderFields order)) out = (none, order) := by
  have hc := newOrderFields_contiguous order
  have hseq : read 8 kSequenceOffset (record (newOrderFields order)) = order.sequence.value :=
    readU64_record hc (by simp [newOrderFields]) order.sequence.lt
  have hoid : read 8 kOrderIdOffset (record (newOrderFields order)) = order.orderId.value :=
    readU64_record hc (by simp [newOrderFields]) order.orderId.lt
  have hqty : read 8 kNewOrderQuantityOffset (record (newOrderFields order)) =
      order.quantity.units :=
    readU64_record hc (by simp [newOrderFields]) order.quantity.lt
  have hside : (record (newOrderFields order)).getD kNewOrderSideOffset 0 =
      if order.side = .buy then 0 else 1 := byte_record hc (by simp [newOrderFields])
  have htype : (record (newOrderFields order)).getD kNewOrderTypeOffset 0 =
      if order.type = .limit then 0 else 1 := byte_record hc (by simp [newOrderFields])
  have hreserved : reservedSet kNewOrderReservedOffset kNewOrderReservedSize
      (record (newOrderFields order)) = false := by
    refine List.any_eq_false.mpr fun i hi => ?_
    have hi' : i < (List.replicate kNewOrderReservedSize (0 : UInt8)).length := by
      simpa using List.mem_range.mp hi
    rw [getD_record hc (by simp [newOrderFields]) hi', List.getD_eq_getElem?_getD,
      List.getElem?_eq_getElem hi', List.getElem_replicate]
    decide
  have hticks : 0 ≤ order.limitPrice.elim 0 Price.ticks ∧
      order.limitPrice.elim 0 Price.ticks < 2 ^ 63 := by
    cases order.limitPrice with
    | none => simp
    | some price => exact ⟨price.pos.le, price.lt⟩
  have hprice : readI64 kNewOrderPriceOffset (record (newOrderFields order)) =
      order.limitPrice.elim 0 Price.ticks :=
    readI64_record hc (by simp [newOrderFields]) hticks.1 hticks.2
  have := order.sequence.pos
  have := order.orderId.pos
  have := order.quantity.pos
  have hsides : ¬ (1 : UInt8) < if order.side = .buy then 0 else 1 := by split_ifs <;> decide
  have htypes : ¬ (1 : UInt8) < if order.type = .limit then 0 else 1 := by split_ifs <;> decide
  have hchecks : ¬ (order.sequence.value = 0 ∨ order.orderId.value = 0 ∨ order.quantity.units = 0 ∨
      (1 : UInt8) < (if order.side = .buy then 0 else 1) ∨
      (1 : UInt8) < (if order.type = .limit then 0 else 1) ∨
      order.limitPrice.elim 0 Price.ticks < 0) := by
    rintro (h | h | h | h | h | h)
    · omega
    · omega
    · omega
    · exact hsides h
    · exact htypes h
    · exact absurd h (not_lt.mpr hticks.1)
  rw [decodeNewOrder, if_neg (not_not.mpr (length_newOrder order))]
  simp only [hseq, hoid, hqty, hprice, hside, htype, hreserved, Bool.false_eq_true, if_false]
  rw [if_neg hchecks, SequenceNumber.fromValue_value, OrderId.fromValue_value,
    Quantity.fromUnits_units]
  have hvalid := (validate_eq_none order).mp hv
  obtain ⟨sequence, orderId, side, type, quantity, limitPrice⟩ := order
  cases type with
  | limit =>
    obtain ⟨price, rfl⟩ := Option.isSome_iff_exists.mp (hvalid.mp rfl)
    have hne : price.ticks ≠ 0 := price.pos.ne'
    cases side <;> simp [hne]
  | market =>
    obtain rfl : limitPrice = none := by simpa using hvalid
    cases side <;> simp

end LowLatencyExchange.Protocol
