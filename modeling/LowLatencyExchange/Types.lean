import Mathlib.Order.Basic
import Mathlib.Tactic

/-!
# Domain primitives and order commands

The strongly typed wrappers of `types.hpp` and the commands of `order_command.hpp`.
A wrapper can only be built through its checked factory, so its value carries the
range proof: a `Quantity` is never zero and fits 64 bits, a `Price` is a positive
signed 64-bit tick count. Enumerations of the source are inductive types.
-/
namespace LowLatencyExchange

/-- A tick count; `std::int64_t` in the source, positive by construction. -/
structure Price where
  ticks : Int
  pos : 0 < ticks
  lt : ticks < 2 ^ 63
  deriving DecidableEq

/-- `from_ticks` takes a `std::int64_t`; only the sign is checked by the source. -/
def Price.fromTicks (ticks : Int) : Option Price :=
  if h : 0 < ticks ∧ ticks < 2 ^ 63 then some ⟨ticks, h.1, h.2⟩ else none

/-- `*Price::from_ticks(ticks)`, for a number that is in range. -/
def Price.of (ticks : Int)
    (h : (Price.fromTicks ticks).isSome = true := by exact Eq.refl true) : Price :=
  (Price.fromTicks ticks).get h

@[simp] theorem Price.fromTicks_ticks (p : Price) : Price.fromTicks p.ticks = some p :=
  dif_pos ⟨p.pos, p.lt⟩

theorem Price.ticks_of_fromTicks {n : Int} {p : Price} (h : Price.fromTicks n = some p) :
    p.ticks = n := by
  unfold Price.fromTicks at h
  split_ifs at h
  cases h
  rfl

theorem Price.ticks_injective : Function.Injective Price.ticks := by
  rintro ⟨_, _, _⟩ ⟨_, _, _⟩ h
  cases h
  rfl

instance : LinearOrder Price := LinearOrder.lift' Price.ticks Price.ticks_injective

theorem Price.lt_def {p q : Price} : p < q ↔ p.ticks < q.ticks := Iff.rfl
theorem Price.le_def {p q : Price} : p ≤ q ↔ p.ticks ≤ q.ticks := Iff.rfl

/-- A non-zero unit count that fits `std::uint64_t`. -/
structure Quantity where
  units : Nat
  pos : 0 < units
  lt : units < 2 ^ 64
  deriving DecidableEq

def Quantity.fromUnits (units : Nat) : Option Quantity :=
  if h : 0 < units ∧ units < 2 ^ 64 then some ⟨units, h.1, h.2⟩ else none

/-- `*Quantity::from_units(units)`, for a number that is in range. -/
def Quantity.of (units : Nat)
    (h : (Quantity.fromUnits units).isSome = true := by exact Eq.refl true) : Quantity :=
  (Quantity.fromUnits units).get h

@[simp] theorem Quantity.fromUnits_units (q : Quantity) : Quantity.fromUnits q.units = some q :=
  dif_pos ⟨q.pos, q.lt⟩

theorem Quantity.units_of_fromUnits {n : Nat} {q : Quantity} (h : Quantity.fromUnits n = some q) :
    q.units = n := by
  unfold Quantity.fromUnits at h
  split_ifs at h
  cases h
  rfl

theorem Quantity.units_injective : Function.Injective Quantity.units := by
  rintro ⟨_, _, _⟩ ⟨_, _, _⟩ h
  cases h
  rfl

theorem Quantity.fromUnits_pos {n : Nat} {q : Quantity} (h : Quantity.fromUnits n = some q) :
    0 < n := by
  unfold Quantity.fromUnits at h
  split_ifs at h with hn
  exact hn.1

structure OrderId where
  value : Nat
  pos : 0 < value
  lt : value < 2 ^ 64
  deriving DecidableEq

def OrderId.fromValue (value : Nat) : Option OrderId :=
  if h : 0 < value ∧ value < 2 ^ 64 then some ⟨value, h.1, h.2⟩ else none

/-- `*OrderId::from_value(value)`, for a number that is in range. -/
def OrderId.of (value : Nat)
    (h : (OrderId.fromValue value).isSome = true := by exact Eq.refl true) : OrderId :=
  (OrderId.fromValue value).get h

@[simp] theorem OrderId.fromValue_value (id : OrderId) : OrderId.fromValue id.value = some id :=
  dif_pos ⟨id.pos, id.lt⟩

theorem OrderId.value_of_fromValue {n : Nat} {id : OrderId} (h : OrderId.fromValue n = some id) :
    id.value = n := by
  unfold OrderId.fromValue at h
  split_ifs at h
  cases h
  rfl

theorem OrderId.value_injective : Function.Injective OrderId.value := by
  rintro ⟨_, _, _⟩ ⟨_, _, _⟩ h
  cases h
  rfl

structure SequenceNumber where
  value : Nat
  pos : 0 < value
  lt : value < 2 ^ 64
  deriving DecidableEq

def SequenceNumber.fromValue (value : Nat) : Option SequenceNumber :=
  if h : 0 < value ∧ value < 2 ^ 64 then some ⟨value, h.1, h.2⟩ else none

/-- `*SequenceNumber::from_value(value)`, for a number that is in range. -/
def SequenceNumber.of (value : Nat)
    (h : (SequenceNumber.fromValue value).isSome = true := by exact Eq.refl true) : SequenceNumber :=
  (SequenceNumber.fromValue value).get h

@[simp] theorem SequenceNumber.fromValue_value (n : SequenceNumber) :
    SequenceNumber.fromValue n.value = some n := dif_pos ⟨n.pos, n.lt⟩

theorem SequenceNumber.value_of_fromValue {n : Nat} {s : SequenceNumber}
    (h : SequenceNumber.fromValue n = some s) : s.value = n := by
  unfold SequenceNumber.fromValue at h
  split_ifs at h
  cases h
  rfl

theorem SequenceNumber.value_injective : Function.Injective SequenceNumber.value := by
  rintro ⟨_, _, _⟩ ⟨_, _, _⟩ h
  cases h
  rfl

structure FeedSequence where
  value : Nat
  pos : 0 < value
  lt : value < 2 ^ 64
  deriving DecidableEq

def FeedSequence.fromValue (value : Nat) : Option FeedSequence :=
  if h : 0 < value ∧ value < 2 ^ 64 then some ⟨value, h.1, h.2⟩ else none

inductive Side where
  | buy | sell
  deriving DecidableEq, Repr

inductive OrderType where
  | limit | market
  deriving DecidableEq, Repr

/-- The other side of the book, where an order of this side looks for liquidity. -/
def Side.contra : Side → Side
  | .buy => .sell
  | .sell => .buy

@[simp] theorem Side.contra_contra (s : Side) : s.contra.contra = s := by cases s <;> rfl

theorem Side.eq_or_eq_contra (s side : Side) : s = side ∨ s = side.contra := by
  cases s <;> cases side <;> simp [Side.contra]

/-- The key comparator of a side's level map: `std::greater` for bids, `std::less` for asks. -/
def Side.before : Side → Price → Price → Prop
  | .buy, p, q => q < p
  | .sell, p, q => p < q

instance : (s : Side) → DecidableRel s.before
  | .buy, p, q => inferInstanceAs (Decidable (q < p))
  | .sell, p, q => inferInstanceAs (Decidable (p < q))

instance (s : Side) : IsStrictTotalOrder Price s.before where
  irrefl p := by cases s <;> exact lt_irrefl p
  trans p q r h g := by
    cases s
    · exact lt_trans g h
    · exact lt_trans h g
  trichotomous p q h g := by
    cases s
    · exact le_antisymm (not_lt.mp h) (not_lt.mp g)
    · exact le_antisymm (not_lt.mp g) (not_lt.mp h)

structure NewOrder where
  sequence : SequenceNumber
  orderId : OrderId
  side : Side
  type : OrderType
  quantity : Quantity
  limitPrice : Option Price
  deriving DecidableEq

inductive NewOrderValidationError where
  | limitOrderMissingPrice
  | marketOrderHasPrice
  deriving DecidableEq, Repr

def validate (order : NewOrder) : Option NewOrderValidationError :=
  if order.type = .limit ∧ order.limitPrice.isNone then some .limitOrderMissingPrice
  else if order.type = .market ∧ order.limitPrice.isSome then some .marketOrderHasPrice
  else none

/-- An order that passes `validate` has a price exactly when it is a limit order. -/
theorem validate_eq_none (order : NewOrder) :
    validate order = none ↔ (order.type = .limit ↔ order.limitPrice.isSome) := by
  unfold validate
  cases order.type <;> cases order.limitPrice <;> simp

theorem validate_limit {order : NewOrder} {price : Price} (ht : order.type = .limit)
    (hp : order.limitPrice = some price) : validate order = none :=
  (validate_eq_none order).mpr (by simp [ht, hp])

theorem validate_market {order : NewOrder} (ht : order.type = .market)
    (hp : order.limitPrice = none) : validate order = none :=
  (validate_eq_none order).mpr (by simp [ht, hp])

structure CancelOrder where
  sequence : SequenceNumber
  orderId : OrderId
  deriving DecidableEq

structure ReplaceOrder where
  sequence : SequenceNumber
  orderId : OrderId
  newQuantity : Quantity
  newPrice : Price
  deriving DecidableEq

/-- The commands a book takes: the alternatives of the source's command variants
other than the empty one. -/
inductive Command where
  | submit (order : NewOrder)
  | cancel (command : CancelOrder)
  | replace (command : ReplaceOrder)
  deriving DecidableEq

def Command.sequence : Command → SequenceNumber
  | .submit order => order.sequence
  | .cancel command => command.sequence
  | .replace command => command.sequence

end LowLatencyExchange
