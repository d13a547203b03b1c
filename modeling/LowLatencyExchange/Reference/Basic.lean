import LowLatencyExchange.OrderBook.Depth
import Mathlib.Tactic

/-!
# The reference order book

The oracle of the differential test, from `reference_order_book.hpp`: one vector of resting
orders in insertion order. Every lookup is a linear search, and matching scans the whole
vector for the best contra order, by price and then by sequence number, once per execution.
-/
namespace LowLatencyExchange

structure RestingRefOrder where
  orderId : OrderId
  sequence : SequenceNumber
  side : Side
  price : Price
  remainingQuantity : Quantity
  deriving DecidableEq

structure ReferenceOrderBook where
  restingOrders : List RestingRefOrder
  seenOrderIds : List OrderId
  deriving DecidableEq

namespace ReferenceOrderBook

def empty : ReferenceOrderBook := ⟨[], []⟩

/-! ## Matching -/

/-- Candidates the scan passes over: the own side, and prices beyond the limit. -/
def skips (side : Side) (type : OrderType) (limitPrice : Option Price)
    (candidate : RestingRefOrder) : Bool :=
  candidate.side = side ||
    match side with
    | .buy => type = .limit && limitPrice.any (fun limit => limit < candidate.price)
    | .sell => type = .limit && limitPrice.any (fun limit => candidate.price < limit)

def better (side : Side) (candidate current : RestingRefOrder) : Bool :=
  match side with
  | .buy => candidate.price < current.price ||
      (candidate.price = current.price && candidate.sequence.value < current.sequence.value)
  | .sell => current.price < candidate.price ||
      (candidate.price = current.price && candidate.sequence.value < current.sequence.value)

/-- The `for` loop over the vector from index `i` on; `best` is the index found so far with
the order there. -/
def scan (side : Side) (type : OrderType) (limitPrice : Option Price) :
    Nat → List RestingRefOrder → Option (Nat × RestingRefOrder) → Option (Nat × RestingRefOrder)
  | _, [], best => best
  | i, candidate :: rest, best =>
    if skips side type limitPrice candidate then scan side type limitPrice (i + 1) rest best
    else
      match best with
      | none => scan side type limitPrice (i + 1) rest (some (i, candidate))
      | some current =>
        if better side candidate current.2 then
          scan side type limitPrice (i + 1) rest (some (i, candidate))
        else scan side type limitPrice (i + 1) rest best

/-- The `while` loop; every round executes at least one unit. -/
def matchLoop (incomingOrderId : OrderId) (side : Side) (type : OrderType)
    (limitPrice : Option Price) (orders : List RestingRefOrder) (remainingUnits : Nat)
    (executions : List Execution) : List RestingRefOrder × Nat × List Execution :=
  if h : 0 < remainingUnits then
    match scan side type limitPrice 0 orders none with
    | none => (orders, remainingUnits, executions)
    | some (bestIdx, contra) =>
      let contraUnits := contra.remainingQuantity.units
      have hc : 0 < contraUnits ∧ contraUnits < 2 ^ 64 :=
        ⟨contra.remainingQuantity.pos, contra.remainingQuantity.lt⟩
      let executedQuantity : Quantity := ⟨min remainingUnits contraUnits, by omega, by omega⟩
      let executedUnits := executedQuantity.units
      let executions := executions ++
        [⟨contra.orderId, incomingOrderId, contra.price, executedQuantity⟩]
      let contraRemaining := contraUnits - executedUnits
      have : remainingUnits - executedUnits < remainingUnits :=
        Nat.sub_lt h executedQuantity.pos
      if hz : contraRemaining = 0 then
        matchLoop incomingOrderId side type limitPrice (orders.eraseIdx bestIdx)
          (remainingUnits - executedUnits) executions
      else
        let remainingQuantity : Quantity := ⟨contraRemaining, by omega, by omega⟩
        matchLoop incomingOrderId side type limitPrice
          (orders.set bestIdx { contra with remainingQuantity := remainingQuantity })
          (remainingUnits - executedUnits) executions
  else (orders, remainingUnits, executions)
termination_by remainingUnits

/-! ## Commands -/

def submit (b : ReferenceOrderBook) (order : NewOrder) : ReferenceOrderBook × SubmitResult :=
  if (validate order).isSome then (b, ⟨[], some .invalidOrder, none⟩)
  else if b.seenOrderIds.any (fun id => id = order.orderId) then
    (b, ⟨[], some .duplicateOrderId, none⟩)
  else
    let seenOrderIds := b.seenOrderIds ++ [order.orderId]
    let (orders, remainingUnits, executions) := matchLoop order.orderId order.side order.type
      order.limitPrice b.restingOrders order.quantity.units []
    match order.type, order.limitPrice, Quantity.fromUnits remainingUnits with
    | .limit, some limitPrice, some remainingQuantity =>
      (⟨orders ++ [⟨order.orderId, order.sequence, order.side, limitPrice, remainingQuantity⟩],
        seenOrderIds⟩, ⟨executions, none, some remainingQuantity⟩)
    | _, _, _ => (⟨orders, seenOrderIds⟩, ⟨executions, none, none⟩)

def cancel (b : ReferenceOrderBook) (command : CancelOrder) : ReferenceOrderBook × CancelResult :=
  match b.restingOrders.find? (fun o => o.orderId = command.orderId) with
  | none => (b, ⟨command.orderId, none, some .orderNotFound⟩)
  | some o =>
    ({ b with restingOrders := b.restingOrders.eraseP (fun o => o.orderId = command.orderId) },
      ⟨command.orderId, some o.remainingQuantity, none⟩)

/-- Write through the iterator that `find_if` returned: the first order with the id. -/
def assignFirst (id : OrderId) (quantity : Quantity) : List RestingRefOrder → List RestingRefOrder
  | [] => []
  | o :: orders =>
    if o.orderId = id then { o with remainingQuantity := quantity } :: orders
    else o :: assignFirst id quantity orders

def replace (b : ReferenceOrderBook) (command : ReplaceOrder) :
    ReferenceOrderBook × ReplaceResult :=
  match b.restingOrders.find? (fun o => o.orderId = command.orderId) with
  | none => (b, ⟨command.orderId, [], none, some .orderNotFound⟩)
  | some o =>
    if command.newPrice = o.price ∧ command.newQuantity.units ≤ o.remainingQuantity.units then
      ({ b with restingOrders := assignFirst command.orderId command.newQuantity b.restingOrders },
        ⟨command.orderId, [], some command.newQuantity, none⟩)
    else
      let (orders, remainingUnits, executions) := matchLoop command.orderId o.side .limit
        (some command.newPrice)
        (b.restingOrders.eraseP (fun o => o.orderId = command.orderId))
        command.newQuantity.units []
      match Quantity.fromUnits remainingUnits with
      | some remainingQuantity =>
        ({ b with restingOrders := orders ++
            [⟨command.orderId, command.sequence, o.side, command.newPrice, remainingQuantity⟩] },
          ⟨command.orderId, executions, some remainingQuantity, none⟩)
      | none => ({ b with restingOrders := orders }, ⟨command.orderId, executions, none, none⟩)

def step (b : ReferenceOrderBook) : Command → ReferenceOrderBook × Result
  | .submit order => ((b.submit order).1, .submit (b.submit order).2)
  | .cancel command => ((b.cancel command).1, .cancel (b.cancel command).2)
  | .replace command => ((b.replace command).1, .replace (b.replace command).2)

def run (commands : List Command) : ReferenceOrderBook := Transducer.run step empty commands
def results (commands : List Command) : List Result := Transducer.outputs step empty commands

/-! ## Queries -/

/-- The scan of `best_bid` and `best_ask` for the best price of a side. -/
def bestPrice (side : Side) (orders : List RestingRefOrder) : Option Price :=
  orders.foldl (fun best o =>
    if o.side = side then
      match best with
      | none => some o.price
      | some price => if side.before o.price price then some o.price else some price
    else best) none

def bestBid (b : ReferenceOrderBook) : Option Price := bestPrice .buy b.restingOrders
def bestAsk (b : ReferenceOrderBook) : Option Price := bestPrice .sell b.restingOrders

/-- The accumulation of `bid_depth` and `ask_depth` into a map in the side's order. -/
def depthOf (side : Side) (orders : List RestingRefOrder) (maxDepth : Nat) : List LevelQuote :=
  let levels := aggregate side
    ((orders.filter (fun o => o.side = side)).map (fun o => (o.price, o.remainingQuantity)))
  (levels.take maxDepth).map aggregateQuote

def bidDepth (b : ReferenceOrderBook) (maxDepth : Nat) : List LevelQuote :=
  depthOf .buy b.restingOrders maxDepth

def askDepth (b : ReferenceOrderBook) (maxDepth : Nat) : List LevelQuote :=
  depthOf .sell b.restingOrders maxDepth

def restingOrderCount (b : ReferenceOrderBook) : Nat := b.restingOrders.length

end ReferenceOrderBook

end LowLatencyExchange
