import LowLatencyExchange.Types
import LowLatencyExchange.Library.OrderedMap
import LowLatencyExchange.Library.Transducer
import Mathlib.Data.Finmap
import Mathlib.Data.Finset.Basic
import Mathlib.Tactic

/-!
# The order book

The private state of `OrderBook` and its operations, as `order_book.cpp` computes them.

A `std::list` node has an address, and an iterator is the address of the node it points
to: erasing or moving other nodes leaves it valid, and reading through it searches for the
node wherever it is linked. Level maps are association lists in comparator order. The
index is a finite map and the set of seen ids a finite set. `total_units` is a 64-bit
accumulator that wraps; every other quantity is exact, since the source only ever
subtracts a minimum of the two operands.

Each pair of buy and sell branches of the source is one parametrised function applied to
the map, comparator and price test of its side.
-/
namespace LowLatencyExchange

inductive OrderRejectReason where
  | invalidOrder
  | marketOrdersNotSupported
  | duplicateOrderId
  deriving DecidableEq, Repr

structure Execution where
  restingOrderId : OrderId
  incomingOrderId : OrderId
  price : Price
  quantity : Quantity
  deriving DecidableEq

structure SubmitResult where
  executions : List Execution
  rejection : Option OrderRejectReason
  remainingQuantity : Option Quantity
  deriving DecidableEq

inductive CancelRejectReason where
  | orderNotFound
  deriving DecidableEq, Repr

structure CancelResult where
  orderId : OrderId
  cancelledQuantity : Option Quantity
  rejection : Option CancelRejectReason
  deriving DecidableEq

inductive ReplaceRejectReason where
  | orderNotFound
  deriving DecidableEq, Repr

structure ReplaceResult where
  orderId : OrderId
  executions : List Execution
  remainingQuantity : Option Quantity
  rejection : Option ReplaceRejectReason
  deriving DecidableEq

/-- What a command returns, by kind of command. -/
inductive Result where
  | submit (result : SubmitResult)
  | cancel (result : CancelResult)
  | replace (result : ReplaceResult)
  deriving DecidableEq

def Result.accepted : Result → Bool
  | .submit result => result.rejection.isNone
  | .cancel result => result.rejection.isNone
  | .replace result => result.rejection.isNone

def Result.executions : Result → List Execution
  | .submit result => result.executions
  | .cancel _ => []
  | .replace result => result.executions

structure RestingOrder where
  orderId : OrderId
  sequence : SequenceNumber
  remainingQuantity : Quantity
  deriving DecidableEq

def RestingOrder.units (order : RestingOrder) : Nat := order.remainingQuantity.units

/-- A node of a `std::list<RestingOrder>`; its address is what an iterator holds. -/
structure Node where
  address : Nat
  order : RestingOrder
  deriving DecidableEq

/-- Write `remaining_quantity` if the iterator points to this node. -/
def Node.assign (it : Nat) (quantity : Quantity) (n : Node) : Node :=
  if n.address = it then { n with order := { n.order with remainingQuantity := quantity } } else n

structure PriceLevel where
  totalUnits : UInt64
  orders : List Node
  deriving DecidableEq

/-- The value `bids_[price]` default-inserts. -/
def PriceLevel.empty : PriceLevel := ⟨0, []⟩

structure OrderLocation where
  side : Side
  price : Price
  it : Nat
  deriving DecidableEq

abbrev Levels := List (Price × PriceLevel)
abbrev Index := Finmap (fun _ : OrderId => OrderLocation)

structure OrderBook where
  bids : Levels
  asks : Levels
  restingOrders : Index
  seenOrderIds : Finset OrderId
  restingOrderCount : Nat
  /-- The address the next list node is allocated at. -/
  nextAddress : Nat
  deriving DecidableEq

namespace OrderBook

def empty : OrderBook := ⟨[], [], ∅, ∅, 0, 0⟩

/-- The level map of a side. -/
def levels (b : OrderBook) : Side → Levels
  | .buy => b.bids
  | .sell => b.asks

/-! ## Iterators -/

def nodes (ls : Levels) : List Node := ls.flatMap (fun e => e.2.orders)

/-- Read through an iterator; an iterator that points nowhere reads nothing. -/
def deref (b : OrderBook) (it : Nat) : Option RestingOrder :=
  ((nodes b.bids ++ nodes b.asks).find? (fun n => n.address = it)).map Node.order

/-- Write `remaining_quantity` through an iterator, wherever in the map its node is. -/
def assign (it : Nat) (quantity : Quantity) (ls : Levels) : Levels :=
  ls.map (fun e => (e.1, { e.2 with orders := e.2.orders.map (Node.assign it quantity) }))

/-! ## Matching -/

/-- What the nested loops of `match_against_book` update besides the level map. -/
structure Matching where
  remainingUnits : Nat
  restingOrders : Index
  restingOrderCount : Nat
  executions : List Execution

/-- The inner loop: take units from the front of one queue. A front order that is not
filled completely uses up the remaining units, so the loop ends there. -/
def matchQueue (incomingOrderId : OrderId) (executionPrice : Price) :
    List Node → UInt64 → Matching → List Node × UInt64 × Matching
  | [], totalUnits, s => ([], totalUnits, s)
  | n :: orders, totalUnits, s =>
    if h : 0 < s.remainingUnits then
      let restingUnits := n.order.remainingQuantity.units
      have hr : 0 < restingUnits ∧ restingUnits < 2 ^ 64 :=
        ⟨n.order.remainingQuantity.pos, n.order.remainingQuantity.lt⟩
      let executedQuantity : Quantity :=
        ⟨min s.remainingUnits restingUnits, by omega, by omega⟩
      let executedUnits := executedQuantity.units
      let s' : Matching :=
        { s with
          remainingUnits := s.remainingUnits - executedUnits
          executions := s.executions ++
            [⟨n.order.orderId, incomingOrderId, executionPrice, executedQuantity⟩] }
      let totalUnits' := totalUnits - UInt64.ofNat executedUnits
      let restingRemaining := restingUnits - executedUnits
      if hz : restingRemaining = 0 then
        matchQueue incomingOrderId executionPrice orders totalUnits'
          { s' with
            restingOrders := s'.restingOrders.erase n.order.orderId
            restingOrderCount := s'.restingOrderCount - 1 }
      else
        let remainingQuantity : Quantity := ⟨restingRemaining, by omega, by omega⟩
        ({ n with order := { n.order with remainingQuantity := remainingQuantity } } :: orders,
          totalUnits', s')
    else (n :: orders, totalUnits, s)

/-- The outer loop over the levels of the contra side, best level first. A level whose
queue is left non-empty has used up the remaining units, so the loop ends there. -/
def matchLevels (crosses : Price → Bool) (incomingOrderId : OrderId) :
    Levels → Matching → Levels × Matching
  | [], s => ([], s)
  | (price, level) :: ls, s =>
    if 0 < s.remainingUnits ∧ crosses price then
      let (orders, totalUnits, s') :=
        matchQueue incomingOrderId price level.orders level.totalUnits s
      if orders = [] then matchLevels crosses incomingOrderId ls s'
      else ((price, ⟨totalUnits, orders⟩) :: ls, s')
    else ((price, level) :: ls, s)

/-- The price test of the matching loops for an incoming order of a side. Dereferencing a
missing limit is excluded by `validate`; here it tests false. -/
def crosses (side : Side) (type : OrderType) (limitPrice : Option Price) (price : Price) : Bool :=
  match side with
  | .buy => type = .market || limitPrice.any (fun limit => price ≤ limit)
  | .sell => type = .market || limitPrice.any (fun limit => limit ≤ price)

def matchAgainstBook (b : OrderBook) (incomingOrderId : OrderId) (side : Side)
    (type : OrderType) (limitPrice : Option Price) (remainingUnits : Nat) :
    OrderBook × Nat × List Execution :=
  let s : Matching := ⟨remainingUnits, b.restingOrders, b.restingOrderCount, []⟩
  match side with
  | .buy =>
    let (asks, s') := matchLevels (crosses .buy type limitPrice) incomingOrderId b.asks s
    ({ b with asks := asks, restingOrders := s'.restingOrders,
              restingOrderCount := s'.restingOrderCount }, s'.remainingUnits, s'.executions)
  | .sell =>
    let (bids, s') := matchLevels (crosses .sell type limitPrice) incomingOrderId b.bids s
    ({ b with bids := bids, restingOrders := s'.restingOrders,
              restingOrderCount := s'.restingOrderCount }, s'.remainingUnits, s'.executions)

/-! ## Insertion and removal -/

/-- `emplace` keeps an entry that is already there. -/
def emplace (index : Index) (orderId : OrderId) (loc : OrderLocation) : Index :=
  if orderId ∈ index then index else index.insert orderId loc

/-- `push_back` at a price, default-inserting the level. -/
def pushBack (before : Price → Price → Prop) [DecidableRel before] (price : Price) (n : Node)
    (ls : Levels) : Levels :=
  OrderedMap.upsert before price .empty
    (fun level => ⟨level.totalUnits + UInt64.ofNat n.order.units, level.orders ++ [n]⟩) ls

def insertRestingOrder (b : OrderBook) (orderId : OrderId) (sequence : SequenceNumber)
    (side : Side) (price : Price) (quantity : Quantity) : OrderBook :=
  let it := b.nextAddress
  let n : Node := ⟨it, ⟨orderId, sequence, quantity⟩⟩
  match side with
  | .buy =>
    { b with
      bids := pushBack (Side.before .buy) price n b.bids
      restingOrders := emplace b.restingOrders orderId ⟨.buy, price, it⟩
      restingOrderCount := b.restingOrderCount + 1
      nextAddress := it + 1 }
  | .sell =>
    { b with
      asks := pushBack (Side.before .sell) price n b.asks
      restingOrders := emplace b.restingOrders orderId ⟨.sell, price, it⟩
      restingOrderCount := b.restingOrderCount + 1
      nextAddress := it + 1 }

/-- The level update of `remove_resting_order`; a price that is not found changes nothing. -/
def eraseFrom (price : Price) (it : Nat) (units : Nat) (ls : Levels) : Levels :=
  match OrderedMap.find price ls with
  | none => ls
  | some level =>
    let orders := level.orders.filter (fun n => n.address ≠ it)
    if orders = [] then OrderedMap.erase price ls
    else OrderedMap.modify price (fun l => ⟨l.totalUnits - UInt64.ofNat units, orders⟩) ls

/-- Returns the quantity read through the iterator before the node is erased. An iterator
that points nowhere would read nothing; the representation invariant excludes it. -/
def removeRestingOrder (b : OrderBook) (loc : OrderLocation) (orderId : OrderId) :
    OrderBook × Option Quantity :=
  let cancelledQuantity := (b.deref loc.it).map RestingOrder.remainingQuantity
  let units := cancelledQuantity.elim 0 Quantity.units
  let b : OrderBook :=
    match loc.side with
    | .buy => { b with bids := eraseFrom loc.price loc.it units b.bids }
    | .sell => { b with asks := eraseFrom loc.price loc.it units b.asks }
  ({ b with
     restingOrders := b.restingOrders.erase orderId
     restingOrderCount := b.restingOrderCount - 1 }, cancelledQuantity)

/-! ## Commands -/

def markSeen (b : OrderBook) (orderId : OrderId) : OrderBook :=
  { b with seenOrderIds := insert orderId b.seenOrderIds }

def submit (b : OrderBook) (order : NewOrder) : OrderBook × SubmitResult :=
  if (validate order).isSome then (b, ⟨[], some .invalidOrder, none⟩)
  else if order.orderId ∈ b.seenOrderIds then (b, ⟨[], some .duplicateOrderId, none⟩)
  else
    let (b, remainingUnits, executions) :=
      (b.markSeen order.orderId).matchAgainstBook order.orderId order.side order.type order.limitPrice
        order.quantity.units
    -- A limit order that passed `validate` has a price, and units are left exactly when
    -- they make a quantity.
    match order.type, order.limitPrice, Quantity.fromUnits remainingUnits with
    | .limit, some limitPrice, some remainingQuantity =>
      (b.insertRestingOrder order.orderId order.sequence order.side limitPrice remainingQuantity,
        ⟨executions, none, some remainingQuantity⟩)
    | _, _, _ => (b, ⟨executions, none, none⟩)

def cancel (b : OrderBook) (command : CancelOrder) : OrderBook × CancelResult :=
  match b.restingOrders.lookup command.orderId with
  | none => (b, ⟨command.orderId, none, some .orderNotFound⟩)
  | some loc =>
    let (b, cancelledQuantity) := b.removeRestingOrder loc command.orderId
    (b, ⟨command.orderId, cancelledQuantity, none⟩)

/-- The in-place update of `replace`: the level total of the old price, then the order
through its iterator. -/
def reduceInPlace (b : OrderBook) (loc : OrderLocation) (unitDiff : Nat)
    (newQuantity : Quantity) : OrderBook :=
  let reduceTotal (before : Price → Price → Prop) [DecidableRel before] (ls : Levels) : Levels :=
    OrderedMap.upsert before loc.price .empty
      (fun level => { level with totalUnits := level.totalUnits - UInt64.ofNat unitDiff }) ls
  let b : OrderBook :=
    match loc.side with
    | .buy => { b with bids := reduceTotal (Side.before .buy) b.bids }
    | .sell => { b with asks := reduceTotal (Side.before .sell) b.asks }
  { b with bids := assign loc.it newQuantity b.bids, asks := assign loc.it newQuantity b.asks }

def replace (b : OrderBook) (command : ReplaceOrder) : OrderBook × ReplaceResult :=
  match b.restingOrders.lookup command.orderId with
  | none => (b, ⟨command.orderId, [], none, some .orderNotFound⟩)
  | some loc =>
    let currentUnits := (b.deref loc.it).elim 0 RestingOrder.units
    let newUnits := command.newQuantity.units
    -- Same price and no more units: the order keeps its place in the queue.
    if command.newPrice = loc.price ∧ newUnits ≤ currentUnits then
      (b.reduceInPlace loc (currentUnits - newUnits) command.newQuantity,
        ⟨command.orderId, [], some command.newQuantity, none⟩)
    else
      let (b, _) := b.removeRestingOrder loc command.orderId
      let (b, remainingUnits, executions) :=
        b.matchAgainstBook command.orderId loc.side .limit (some command.newPrice) newUnits
      match Quantity.fromUnits remainingUnits with
      | some remainingQuantity =>
        (b.insertRestingOrder command.orderId command.sequence loc.side command.newPrice
          remainingQuantity, ⟨command.orderId, executions, some remainingQuantity, none⟩)
      | none => (b, ⟨command.orderId, executions, none, none⟩)

def step (b : OrderBook) : Command → OrderBook × Result
  | .submit order => ((b.submit order).1, .submit (b.submit order).2)
  | .cancel command => ((b.cancel command).1, .cancel (b.cancel command).2)
  | .replace command => ((b.replace command).1, .replace (b.replace command).2)

/-- The state after a command sequence on an empty book. -/
def run (commands : List Command) : OrderBook := Transducer.run step empty commands

/-- What the commands of a sequence return on an empty book. -/
def results (commands : List Command) : List Result := Transducer.outputs step empty commands

/-- The commands of a sequence, each with what it returned. -/
def trace (commands : List Command) : List (Command × Result) :=
  Transducer.trace step empty commands

theorem run_concat (commands : List Command) (c : Command) :
    run (commands ++ [c]) = ((run commands).step c).1 := Transducer.run_concat _ _ _ _

theorem trace_concat (commands : List Command) (c : Command) :
    trace (commands ++ [c]) = trace commands ++ [(c, ((run commands).step c).2)] :=
  Transducer.trace_concat _ _ _ _

end OrderBook

end LowLatencyExchange
