import LowLatencyExchange.Protocol.Commands
import Mathlib.Tactic

/-!
# Payloads have one spelling

Each decoder of an inbound payload accepts exactly the well-formed byte strings, and these
are exactly what the encoder writes. A decoder that reports an error leaves its `out`
parameter as it was.
-/
namespace LowLatencyExchange.Protocol

open LittleEndian

/-- A decoder and an encoder that undo each other on the well-formed payloads of a size. -/
structure Canonical {A : Type} (size : Nat) (valid : A → Prop) (wellFormed : List UInt8 → Prop)
    (decode : List UInt8 → A → Option ErrorCode × A)
    (encode : A → List UInt8 → Option (List UInt8)) : Prop where
  decode_encode : ∀ a out span, valid a → span.length = size →
    ∃ payload, encode a span = some payload ∧ decode payload out = (none, a)
  accepts : ∀ payload out, (decode payload out).1 = none ↔ wellFormed payload
  encode_decode : ∀ payload out a span, decode payload out = (none, a) → span.length = size →
    encode a span = some payload
  unchanged : ∀ payload out, (decode payload out).1 ≠ none → (decode payload out).2 = out

/-- What a decoder can do: accept a well-formed payload, which is then the record of the
decoded value, or leave `out` alone. -/
def Decodes {A : Type} (valid : A → Prop) (wellFormed : List UInt8 → Prop)
    (fields : A → List (Nat × List UInt8)) (payload : List UInt8) (out : A)
    (result : Option ErrorCode × A) : Prop :=
  (wellFormed payload ∧ ∃ a, result = (none, a) ∧ valid a ∧ payload = record (fields a)) ∨
  (¬ wellFormed payload ∧ ∃ code, result = (some code, out))

/-- A decoder that inverts the record of a value is canonical. -/
theorem canonical_of_decodes {A : Type} {size : Nat} {valid : A → Prop}
    {wellFormed : List UInt8 → Prop} {fields : A → List (Nat × List UInt8)}
    {decode : List UInt8 → A → Option ErrorCode × A}
    (hcontiguous : ∀ a, Contiguous 0 (fields a))
    (hsize : ∀ a, (record (fields a)).length = size)
    (hrecord : ∀ a, valid a → ∀ out, decode (record (fields a)) out = (none, a))
    (hdecode : ∀ payload out, Decodes valid wellFormed fields payload out (decode payload out)) :
    Canonical size valid wellFormed decode (fun a => encodeFields size (fields a)) where
  decode_encode a out span hv hspan :=
    ⟨record (fields a), encodeFields_eq (hcontiguous a) (hsize a) hspan, hrecord a hv out⟩
  accepts payload out := by
    obtain ⟨hwf, a, ha, -⟩ | ⟨hwf, code, hcode⟩ := hdecode payload out
    · simp [ha, hwf]
    · simp [hcode, hwf]
  encode_decode payload out a span h hspan := by
    obtain ⟨-, a', ha, -, hpayload⟩ | ⟨-, code, hcode⟩ := hdecode payload out
    · obtain rfl : a' = a := by
        rw [h] at ha
        exact (Prod.mk.inj ha).2.symm
      rw [encodeFields_eq (hcontiguous a') (hsize a') hspan, ← hpayload]
    · simp [hcode] at h
  unchanged payload out h := by
    obtain ⟨-, a, ha, -⟩ | ⟨-, code, hcode⟩ := hdecode payload out
    · simp [ha] at h
    · rw [hcode]

/-! ## Fields read from a payload -/

theorem i64Bytes_readI64 {offset : Nat} {payload : List UInt8}
    (h : offset + 8 ≤ payload.length) :
    i64Bytes (readI64 offset payload) = (payload.drop offset).take 8 := by
  have hlt := read_lt 8 offset payload
  have hbits : (toInt64 (read 8 offset payload) % 2 ^ 64).toNat = read 8 offset payload := by
    unfold toInt64
    split_ifs <;> omega
  rw [i64Bytes, readI64, hbits, bytes_read h]

theorem replicate_eq_of_reserved {offset size : Nat} {payload : List UInt8}
    (hlen : offset + size ≤ payload.length) (h : reservedSet offset size payload = false) :
    List.replicate size 0 = (payload.drop offset).take size := by
  have hzero : ∀ i < size, payload.getD (offset + i) 0 = 0 := by
    intro i hi
    have := List.any_eq_false.mp h i (List.mem_range.mpr hi)
    simpa using this
  apply List.ext_getElem?
  intro i
  rcases Nat.lt_or_ge i size with hi | hi
  · have hget := hzero i hi
    rw [List.getD_eq_getElem?_getD, List.getElem?_eq_getElem (by omega), Option.getD_some] at hget
    rw [List.getElem?_replicate, if_pos hi, List.getElem?_take_of_lt hi, List.getElem?_drop,
      List.getElem?_eq_getElem (by omega), hget]
  · rw [List.getElem?_eq_none (by simpa using hi), List.getElem?_take_eq_none hi]

/-! ## Cancels -/

structure CancelOrderPayload (payload : List UInt8) : Prop where
  length : payload.length = kCancelOrderSize
  sequence : read 8 kSequenceOffset payload ≠ 0
  orderId : read 8 kOrderIdOffset payload ≠ 0

theorem cancelOrder_decodes (payload : List UInt8) (out : CancelOrder) :
    Decodes (fun _ => True) CancelOrderPayload cancelOrderFields payload out
      (decodeCancelOrder payload out) := by
  unfold decodeCancelOrder
  by_cases hlen : payload.length = kCancelOrderSize
  · rw [if_neg (not_not.mpr hlen)]
    dsimp only
    by_cases hzero : read 8 kSequenceOffset payload = 0 ∨ read 8 kOrderIdOffset payload = 0
    · rw [if_pos hzero]
      exact .inr ⟨fun h => hzero.elim h.sequence h.orderId, _, rfl⟩
    · obtain ⟨hseq, hoid⟩ := not_or.mp hzero
      have hs := read_lt 8 kSequenceOffset payload
      have ho := read_lt 8 kOrderIdOffset payload
      rw [if_neg hzero, SequenceNumber.fromValue, OrderId.fromValue, dif_pos (by omega),
        dif_pos (by omega)]
      refine .inl ⟨⟨hlen, hseq, hoid⟩, _, rfl, trivial, ?_⟩
      simp only [kCancelOrderSize] at hlen
      refine (record_eq (cancelOrderFields_contiguous _) ?_ ?_).symm
      · simp only [cancelOrderFields, List.forall_mem_cons, length_bytes]
        refine ⟨bytes_read ?_, bytes_read ?_, by simp⟩ <;>
          simp only [kSequenceOffset, kOrderIdOffset] <;> omega
      · rw [length_cancelOrder, hlen, kCancelOrderSize]
  · rw [if_pos hlen]
    exact .inr ⟨fun h => hlen h.length, _, rfl⟩

/-! ## Replaces -/

structure ReplaceOrderPayload (payload : List UInt8) : Prop where
  length : payload.length = kReplaceOrderSize
  sequence : read 8 kSequenceOffset payload ≠ 0
  orderId : read 8 kOrderIdOffset payload ≠ 0
  quantity : read 8 kReplaceQuantityOffset payload ≠ 0
  price : 1 ≤ readI64 kReplacePriceOffset payload ∧
    readI64 kReplacePriceOffset payload ≤ 2 ^ 63 - 1

theorem readI64_lt (offset : Nat) (payload : List UInt8) : readI64 offset payload < 2 ^ 63 := by
  have := read_lt 8 offset payload
  unfold readI64 toInt64
  split_ifs <;> omega

theorem replaceOrder_decodes (payload : List UInt8) (out : ReplaceOrder) :
    Decodes (fun _ => True) ReplaceOrderPayload replaceOrderFields payload out
      (decodeReplaceOrder payload out) := by
  unfold decodeReplaceOrder
  by_cases hlen : payload.length = kReplaceOrderSize
  · rw [if_neg (not_not.mpr hlen)]
    dsimp only
    by_cases hbad : read 8 kSequenceOffset payload = 0 ∨ read 8 kOrderIdOffset payload = 0 ∨
        read 8 kReplaceQuantityOffset payload = 0 ∨ readI64 kReplacePriceOffset payload ≤ 0
    · rw [if_pos hbad]
      refine .inr ⟨fun h => ?_, _, rfl⟩
      obtain hbad | hbad | hbad | hbad := hbad
      · exact h.sequence hbad
      · exact h.orderId hbad
      · exact h.quantity hbad
      · have := h.price
        omega
    · have hs := read_lt 8 kSequenceOffset payload
      have ho := read_lt 8 kOrderIdOffset payload
      have hq := read_lt 8 kReplaceQuantityOffset payload
      have hp := readI64_lt kReplacePriceOffset payload
      simp only [not_or] at hbad
      obtain ⟨hseq, hoid, hqty, hprice⟩ := hbad
      rw [if_neg (by omega), SequenceNumber.fromValue, OrderId.fromValue, Quantity.fromUnits,
        Price.fromTicks, dif_pos (by omega), dif_pos (by omega), dif_pos (by omega),
        dif_pos (by omega)]
      refine .inl ⟨⟨hlen, hseq, hoid, hqty, by omega⟩, _, rfl, trivial, ?_⟩
      simp only [kReplaceOrderSize] at hlen
      refine (record_eq (replaceOrderFields_contiguous _) ?_ ?_).symm
      · simp only [replaceOrderFields, List.forall_mem_cons, length_bytes, length_i64Bytes]
        refine ⟨bytes_read ?_, bytes_read ?_, bytes_read ?_, i64Bytes_readI64 ?_, by simp⟩ <;>
          simp only [kSequenceOffset, kOrderIdOffset, kReplaceQuantityOffset,
            kReplacePriceOffset] <;> omega
      · rw [length_replaceOrder, hlen, kReplaceOrderSize]
  · rw [if_pos hlen]
    exact .inr ⟨fun h => hlen h.length, _, rfl⟩

/-! ## New orders -/

structure NewOrderPayload (payload : List UInt8) : Prop where
  length : payload.length = kNewOrderSize
  sequence : read 8 kSequenceOffset payload ≠ 0
  orderId : read 8 kOrderIdOffset payload ≠ 0
  quantity : read 8 kNewOrderQuantityOffset payload ≠ 0
  side : payload.getD kNewOrderSideOffset 0 = 0 ∨ payload.getD kNewOrderSideOffset 0 = 1
  type : payload.getD kNewOrderTypeOffset 0 = 0 ∨ payload.getD kNewOrderTypeOffset 0 = 1
  reserved : ∀ i < kNewOrderReservedSize, payload.getD (kNewOrderReservedOffset + i) 0 = 0
  limitPrice : payload.getD kNewOrderTypeOffset 0 = 0 →
    1 ≤ readI64 kNewOrderPriceOffset payload ∧ readI64 kNewOrderPriceOffset payload ≤ 2 ^ 63 - 1
  marketPrice : payload.getD kNewOrderTypeOffset 0 = 1 → readI64 kNewOrderPriceOffset payload = 0

theorem reservedSet_eq_false {offset size : Nat} {payload : List UInt8} :
    reservedSet offset size payload = false ↔
      ∀ i < size, payload.getD (offset + i) 0 = 0 := by
  simp [reservedSet]

/-- A byte that is at most one. -/
theorem byte_le_one {b : UInt8} (h : ¬ 1 < b) : b = 0 ∨ b = 1 := by
  have hle : b.toNat ≤ 1 := Nat.le_of_not_lt fun hlt => h (UInt8.lt_iff_toNat_lt.mpr hlt)
  rcases Nat.le_one_iff_eq_zero_or_eq_one.mp hle with h0 | h1
  · exact .inl (UInt8.toNat_inj.mp h0)
  · exact .inr (UInt8.toNat_inj.mp h1)

/-- A well-formed payload fails none of the field checks. -/
theorem NewOrderPayload.not_bad {payload : List UInt8} (h : NewOrderPayload payload) :
    ¬ (read 8 kSequenceOffset payload = 0 ∨ read 8 kOrderIdOffset payload = 0 ∨
      read 8 kNewOrderQuantityOffset payload = 0 ∨
      1 < payload.getD kNewOrderSideOffset 0 ∨ 1 < payload.getD kNewOrderTypeOffset 0 ∨
      readI64 kNewOrderPriceOffset payload < 0) := by
  rintro (hbad | hbad | hbad | hbad | hbad | hbad)
  · exact h.sequence hbad
  · exact h.orderId hbad
  · exact h.quantity hbad
  · obtain hside | hside := h.side <;> rw [hside] at hbad <;> exact absurd hbad (by decide)
  · obtain htype | htype := h.type <;> rw [htype] at hbad <;> exact absurd hbad (by decide)
  · obtain htype | htype := h.type
    · have := h.limitPrice htype
      omega
    · have := h.marketPrice htype
      omega

/-- The payload is the record of the order that was read from it. -/
theorem newOrder_record_eq {payload : List UInt8} {order : NewOrder}
    (hlen : payload.length = kNewOrderSize)
    (hreserved : reservedSet kNewOrderReservedOffset kNewOrderReservedSize payload = false)
    (hseq : order.sequence.value = read 8 kSequenceOffset payload)
    (hoid : order.orderId.value = read 8 kOrderIdOffset payload)
    (hqty : order.quantity.units = read 8 kNewOrderQuantityOffset payload)
    (hprice : order.limitPrice.elim 0 Price.ticks = readI64 kNewOrderPriceOffset payload)
    (hside : (if order.side = .buy then 0 else 1) = payload.getD kNewOrderSideOffset 0)
    (htype : (if order.type = .limit then 0 else 1) = payload.getD kNewOrderTypeOffset 0) :
    payload = record (newOrderFields order) := by
  refine (record_eq (newOrderFields_contiguous order) ?_ ?_).symm
  · simp only [kNewOrderSize] at hlen
    simp only [newOrderFields, List.forall_mem_cons, length_bytes, length_i64Bytes,
      List.length_singleton, List.length_replicate, hseq, hoid, hqty, hprice, hside, htype]
    refine ⟨bytes_read ?_, bytes_read ?_, bytes_read ?_, i64Bytes_readI64 ?_, singleton_getD ?_,
      singleton_getD ?_, replicate_eq_of_reserved ?_ hreserved, by simp⟩ <;>
      simp only [kSequenceOffset, kOrderIdOffset, kNewOrderQuantityOffset, kNewOrderPriceOffset,
        kNewOrderSideOffset, kNewOrderTypeOffset, kNewOrderReservedOffset,
        kNewOrderReservedSize] <;> omega
  · rw [length_newOrder, hlen]

theorem newOrder_decodes (payload : List UInt8) (out : NewOrder) :
    Decodes (fun order => validate order = none) NewOrderPayload newOrderFields payload out
      (decodeNewOrder payload out) := by
  unfold decodeNewOrder
  by_cases hlen : payload.length = kNewOrderSize
  · rw [if_neg (not_not.mpr hlen)]
    dsimp only
    cases hreserved : reservedSet kNewOrderReservedOffset kNewOrderReservedSize payload with
    | true =>
      rw [if_pos rfl]
      refine .inr ⟨fun h => ?_, _, rfl⟩
      rw [reservedSet_eq_false.mpr h.reserved] at hreserved
      cases hreserved
    | false =>
      rw [if_neg Bool.false_ne_true]
      by_cases hbad : read 8 kSequenceOffset payload = 0 ∨ read 8 kOrderIdOffset payload = 0 ∨
          read 8 kNewOrderQuantityOffset payload = 0 ∨
          1 < payload.getD kNewOrderSideOffset 0 ∨ 1 < payload.getD kNewOrderTypeOffset 0 ∨
          readI64 kNewOrderPriceOffset payload < 0
      · rw [if_pos hbad]
        exact .inr ⟨fun h => h.not_bad hbad, _, rfl⟩
      · have hs := read_lt 8 kSequenceOffset payload
        have ho := read_lt 8 kOrderIdOffset payload
        have hq := read_lt 8 kNewOrderQuantityOffset payload
        have hp := readI64_lt kNewOrderPriceOffset payload
        rw [if_neg hbad]
        simp only [not_or] at hbad
        obtain ⟨hseq, hoid, hqty, hsidele, htypele, hprice⟩ := hbad
        have hside := byte_le_one hsidele
        have hzeros := reservedSet_eq_false.mp hreserved
        have hbit : (if (if payload.getD kNewOrderSideOffset 0 = 0 then Side.buy else .sell) = .buy
            then (0 : UInt8) else 1) = payload.getD kNewOrderSideOffset 0 := by
          obtain hside | hside := hside <;> rw [hside] <;> decide
        rw [SequenceNumber.fromValue, OrderId.fromValue, Quantity.fromUnits, dif_pos (by omega),
          dif_pos (by omega), dif_pos (by omega)]
        dsimp only
        obtain htype | htype := byte_le_one htypele
        · rw [if_pos htype]
          by_cases hpz : readI64 kNewOrderPriceOffset payload = 0
          · rw [if_pos hpz]
            refine .inr ⟨fun h => ?_, _, rfl⟩
            have := (h.limitPrice htype).1
            omega
          · rw [if_neg hpz, Price.fromTicks, dif_pos (by omega)]
            refine .inl ⟨⟨hlen, hseq, hoid, hqty, hside, .inl htype, hzeros, fun _ => by omega,
              fun h => ?_⟩, _, rfl, rfl, newOrder_record_eq hlen hreserved rfl rfl rfl rfl hbit ?_⟩
            · rw [htype] at h
              exact absurd h (by decide)
            · exact htype.symm
        · have hone : payload.getD kNewOrderTypeOffset 0 ≠ 0 := by
            rw [htype]
            decide
          rw [if_neg hone]
          by_cases hpz : readI64 kNewOrderPriceOffset payload = 0
          · rw [if_neg (not_not.mpr hpz)]
            exact .inl ⟨⟨hlen, hseq, hoid, hqty, hside, .inr htype, hzeros, fun h => absurd h hone,
              fun _ => hpz⟩, _, rfl, rfl, newOrder_record_eq hlen hreserved rfl rfl rfl hpz.symm
              hbit htype.symm⟩
          · rw [if_pos hpz]
            exact .inr ⟨fun h => hpz (h.marketPrice htype), _, rfl⟩
  · rw [if_pos hlen]
    exact .inr ⟨fun h => hlen h.length, _, rfl⟩

/-! ## The three codecs -/

/-- Valid new orders, cancels and replaces are decoded from what they are encoded to. A payload
is accepted exactly if it is well formed; encoding the command that it spells gives it back;
and an error leaves `out` unchanged. -/
theorem command_payloads_canonical :
    Canonical kNewOrderSize (fun order => validate order = none) NewOrderPayload decodeNewOrder
      encodeNewOrder ∧
    Canonical kCancelOrderSize (fun _ => True) CancelOrderPayload decodeCancelOrder
      encodeCancelOrder ∧
    Canonical kReplaceOrderSize (fun _ => True) ReplaceOrderPayload decodeReplaceOrder
      encodeReplaceOrder := by
  refine ⟨?_, ?_, ?_⟩
  · exact canonical_of_decodes newOrderFields_contiguous length_newOrder
      (fun _ hv out => decodeNewOrder_record hv out) newOrder_decodes
  · exact canonical_of_decodes cancelOrderFields_contiguous length_cancelOrder
      (fun order _ out => decodeCancelOrder_record order out) cancelOrder_decodes
  · exact canonical_of_decodes replaceOrderFields_contiguous length_replaceOrder
      (fun order _ out => decodeReplaceOrder_record order out) replaceOrder_decodes

end LowLatencyExchange.Protocol
