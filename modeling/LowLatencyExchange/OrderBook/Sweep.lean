import LowLatencyExchange.OrderBook.Withdrawal
import Mathlib.Tactic

/-!
# Matching is a greedy sweep of the eligible orders

An accepted order, or a replace that lost its place, takes its units from the eligible
contra orders in priority order. The levels, the two nested loops and the wrapping level
totals of the book leave no trace in the executions, in the orders that stay and in what
is left over.
-/
namespace LowLatencyExchange

namespace PriorityBook

/-- The orders of a contra side that an incoming order may trade with, in priority order. -/
def eligibleOrders (side : Side) (type : OrderType) (limitPrice : Option Price)
    (contra : List Entry) : List Entry :=
  contra.filter (fun e => OrderBook.crosses side type limitPrice e.1)

/-- `q` units swept the list `contra`: the executions, the list afterwards and the rest. -/
structure Sweep (incoming : OrderId) (side : Side) (type : OrderType) (limitPrice : Option Price)
    (contra : List Entry) (q : Nat) (executions : List Execution) (after : List Entry)
    (rest : Nat) : Prop where
  /-- The list swept is in priority order, best price first. -/
  sorted : contra.Pairwise (fun x y => ¬ side.contra.before y.1 x.1)
  /-- The first eligible orders are named in order, each at its own price. -/
  named : executions.map (fun x => (x.restingOrderId, x.price)) =
    ((eligibleOrders side type limitPrice contra).take executions.length).map
      (fun e => (e.id, e.1))
  incoming_eq : ∀ x ∈ executions, x.incomingOrderId = incoming
  /-- All are filled whole and gone, or the last one is cut and keeps its place. -/
  filled :
    (executions.map (fun x => x.quantity.units) =
        ((eligibleOrders side type limitPrice contra).take executions.length).map Entry.units ∧
      after = contra.drop executions.length) ∨
    (∃ whole e n,
      (eligibleOrders side type limitPrice contra).take executions.length = whole ++ [e] ∧
      executions.map (fun x => x.quantity.units) = whole.map Entry.units ++ [n] ∧
      0 < n ∧ n < e.units ∧ after = e.cut n :: contra.drop executions.length)
  sum : (executions.map (fun x => x.quantity.units)).sum =
    min q (GreedyFill.total Entry.units (eligibleOrders side type limitPrice contra))
  rest_eq : rest = q - (executions.map (fun x => x.quantity.units)).sum
  exhausted : 0 < rest → eligibleOrders side type limitPrice after = []
  distinct : (executions.map Execution.restingOrderId).Nodup
  foreign : incoming ∉ executions.map Execution.restingOrderId

section Take

variable {b : PriorityBook} (incoming : OrderId) (side : Side) (type : OrderType)
  (limitPrice : Option Price) (q : Nat)

theorem take_executions_units (b : PriorityBook) :
    (b.take incoming side type limitPrice q).executions.map (fun x => x.quantity.units) =
      ((fill (OrderBook.crosses side type limitPrice) (b.orders side.contra) q).fills
        Entry.units).map Prod.snd := by
  rw [take, List.map_map]
  refine List.map_congr_left fun x hx => ?_
  obtain ⟨-, hpos, hle⟩ := mem_fills hx
  exact executionOf_units hpos hle

theorem Valid.eligible_first (valid : b.Valid) :
    (b.orders side.contra).Pairwise (fun x y => OrderBook.crosses side type limitPrice y.1 →
      OrderBook.crosses side type limitPrice x.1) :=
  (valid.sorted side.contra).imp fun hxy hy => crosses_mono hxy hy

/-- Taking liquidity from a valid book is a sweep. -/
theorem Valid.take_sweep (valid : b.Valid) (habsent : b.Absent incoming) :
    Sweep incoming side type limitPrice (b.orders side.contra) q
      (b.take incoming side type limitPrice q).executions
      ((b.take incoming side type limitPrice q).book.orders side.contra)
      (b.take incoming side type limitPrice q).rest := by
  have hunits := take_executions_units incoming side type limitPrice q b
  have hlength : (b.take incoming side type limitPrice q).executions.length =
      ((fill (OrderBook.crosses side type limitPrice) (b.orders side.contra) q).fills
        Entry.units).length := List.length_map _
  have htouched := GreedyFill.fill_touched_eligible
    (fun e : Entry => OrderBook.crosses side type limitPrice e.1) Entry.units Entry.cut
    (b.orders side.contra) q
  have hsum := GreedyFill.fill_sum (fun e : Entry => OrderBook.crosses side type limitPrice e.1)
    Entry.units Entry.cut (b.orders side.contra) q
  have hrest := GreedyFill.fill_rest_eq (fun e : Entry => OrderBook.crosses side type limitPrice e.1)
    Entry.units Entry.cut (valid.eligible_first side type limitPrice) q
  obtain ⟨hdistinct, hresting⟩ := take_restingIds valid incoming side type limitPrice q
  refine ⟨valid.sorted side.contra, ?_, ?_, ?_, ?_, ?_, ?_, hdistinct,
    fun hm => habsent side.contra (hresting incoming hm)⟩
  · rw [hlength, eligibleOrders, fill, ← htouched, take, List.map_map, List.map_map]
    rfl
  · intro x hx
    obtain ⟨y, -, rfl⟩ := List.mem_map.mp hx
    rfl
  · have hleft := GreedyFill.fill_left (fun e : Entry => OrderBook.crosses side type limitPrice e.1)
      Entry.units Entry.cut (b.orders side.contra) q
    rw [hunits, hlength, take_orders_contra, eligibleOrders, fill, ← htouched]
    exact hleft
  · rw [hunits, eligibleOrders, fill]
    omega
  · rw [hunits, fill, take, fill]
    dsimp only
    omega
  · intro hpos
    rw [take_orders_contra, eligibleOrders, List.filter_eq_nil_iff]
    intro e he
    have hnot := GreedyFill.fill_left_of_rest_pos
      (fun e : Entry => OrderBook.crosses side type limitPrice e.1) Entry.units Entry.cut
      (valid.eligible_first side type limitPrice) q hpos e he
    exact Bool.eq_false_iff.mp hnot

/-- What is left of a limit order joins its own side and changes nothing else. -/
theorem Valid.take_post (valid : b.Valid) (habsent : b.Absent incoming)
    (sequence : SequenceNumber) (price : Price) :
    let t := b.take incoming side type limitPrice q
    (t.book.post incoming sequence side price t.rest).orders side.contra =
        t.book.orders side.contra ∧
      ((t.book.post incoming sequence side price t.rest).orders side).filter
        (fun e => e.id ≠ incoming) = b.orders side := by
  intro t
  refine ⟨?_, ?_⟩
  · unfold post
    cases Quantity.fromUnits t.rest with
    | none => rfl
    | some quantity => exact orders_contra_setOrders _ _ _
  · have hremove := remove_post (habsent.take incoming side type limitPrice q)
      (take_sorted valid incoming side type limitPrice q) sequence side price t.rest
    rw [← orders_remove, hremove, take_orders_own]

end Take

/-- An accepted order sweeps the contra side, and a limit order leaves the rest on its own. -/
theorem Valid.submit_sweep {b : PriorityBook} (valid : b.Valid) {order : NewOrder}
    (haccepted : (b.submit order).2.rejection = none) :
    ∃ rest, Sweep order.orderId order.side order.type order.limitPrice
        (b.orders order.side.contra) order.quantity.units (b.submit order).2.executions
        ((b.submit order).1.orders order.side.contra) rest ∧
      ((b.submit order).1.orders order.side).filter (fun e => e.id ≠ order.orderId) =
        b.orders order.side ∧
      (b.submit order).2.remainingQuantity =
        if order.type = .limit then Quantity.fromUnits rest else none := by
  have htrans := b.submit_transition order
  simp only [step] at htrans
  generalize b.submit order = r at haccepted htrans
  obtain ⟨book, result⟩ := r
  cases htrans with
  | invalid _ hv => cases haccepted
  | duplicate _ hv hs => cases haccepted
  | limit _ price ht hp hs t ht' =>
    subst ht'
    have hseen := valid.markSeen order.orderId
    have habsent := (valid.absent hs).markSeen order.orderId
    have hsweep := hseen.take_sweep order.orderId order.side .limit (some price)
      order.quantity.units habsent
    obtain ⟨hcontra, hown⟩ := hseen.take_post order.orderId order.side .limit (some price)
      order.quantity.units habsent order.sequence price
    rw [← hcontra, orders_markSeen] at hsweep
    rw [orders_markSeen] at hown
    refine ⟨_, ?_, hown, by rw [ht]; rfl⟩
    rw [ht, hp]
    exact hsweep
  | market _ ht hp hs t ht' =>
    subst ht'
    have hseen := valid.markSeen order.orderId
    have habsent := (valid.absent hs).markSeen order.orderId
    have hsweep := hseen.take_sweep order.orderId order.side .market none order.quantity.units
      habsent
    rw [orders_markSeen] at hsweep
    refine ⟨((b.markSeen order.orderId).take order.orderId order.side .market none
      order.quantity.units).rest, ?_, ?_, by rw [ht]; rfl⟩
    · rw [ht, hp]
      exact hsweep
    · dsimp only
      rw [take_orders_own, orders_markSeen]
      exact UniqueKeys.filter_of_notMem (valid.absent hs order.side)

/-- A replaced order that lost its place sweeps the contra side of the book without it. -/
theorem Valid.replace_sweep {b : PriorityBook} (valid : b.Valid) {command : ReplaceOrder}
    {side : Side} {e : Entry} (hf : b.find command.orderId = some (side, e))
    (hc : ¬ (command.newPrice = e.1 ∧ command.newQuantity.units ≤ e.units)) :
    ∃ rest, Sweep command.orderId side .limit (some command.newPrice)
        ((b.remove command.orderId).orders side.contra) command.newQuantity.units
        (b.replace command).2.executions ((b.replace command).1.orders side.contra) rest ∧
      ((b.replace command).1.orders side).filter (fun e => e.id ≠ command.orderId) =
        (b.remove command.orderId).orders side ∧
      (b.replace command).2.remainingQuantity = Quantity.fromUnits rest := by
  have hremoved := valid.remove command.orderId
  have habsent := b.absent_remove command.orderId
  have hsweep := hremoved.take_sweep command.orderId side .limit (some command.newPrice)
    command.newQuantity.units habsent
  obtain ⟨hcontra, hown⟩ := hremoved.take_post command.orderId side .limit
    (some command.newPrice) command.newQuantity.units habsent command.sequence command.newPrice
  simp only [replace, hf, if_neg hc]
  refine ⟨_, ?_, hown, rfl⟩
  rw [hcontra]
  exact hsweep

end PriorityBook

namespace OrderBook

open PriorityBook

/-- On every reachable book an accepted order, and a replace that gives up its place, is
executed as the greedy fill of its units along the eligible contra orders. Nothing else on
either side moves, and what is left over is the remaining quantity of a limit order. -/
theorem matching_sweeps (commands : List Command) :
    (∀ order : NewOrder, ((run commands).submit order).2.rejection = none →
      ∃ rest, Sweep order.orderId order.side order.type order.limitPrice
          ((run commands).view.orders order.side.contra) order.quantity.units
          ((run commands).submit order).2.executions
          (((run commands).submit order).1.view.orders order.side.contra) rest ∧
        (((run commands).submit order).1.view.orders order.side).filter
          (fun e => e.id ≠ order.orderId) = (run commands).view.orders order.side ∧
        ((run commands).submit order).2.remainingQuantity =
          if order.type = .limit then Quantity.fromUnits rest else none) ∧
    (∀ (command : ReplaceOrder) (loc : OrderLocation) (order : RestingOrder),
      (run commands).restingOrders.lookup command.orderId = some loc →
      (run commands).deref loc.it = some order →
      command.newPrice ≠ loc.price ∨ order.units < command.newQuantity.units →
      ∃ rest, Sweep command.orderId loc.side .limit (some command.newPrice)
          (((run commands).removeRestingOrder loc command.orderId).1.view.orders loc.side.contra)
          command.newQuantity.units ((run commands).replace command).2.executions
          (((run commands).replace command).1.view.orders loc.side.contra) rest ∧
        (((run commands).replace command).1.view.orders loc.side).filter
          (fun e => e.id ≠ command.orderId) =
          ((run commands).removeRestingOrder loc command.orderId).1.view.orders loc.side ∧
        ((run commands).replace command).2.remainingQuantity = Quantity.fromUnits rest) := by
  have inv := run_inv commands
  refine ⟨?_, ?_⟩
  · intro order haccepted
    obtain ⟨-, hview, hresult⟩ := submit_spec inv order
    rw [hresult] at haccepted
    rw [hview, hresult]
    exact inv.valid.submit_sweep haccepted
  · intro command loc order hl hd hmoved
    obtain ⟨-, hview, hresult⟩ := replace_spec inv command
    obtain ⟨-, hremoved, -⟩ := removeRestingOrder_spec inv hl
    obtain ⟨order', hd', hf⟩ := inv.find_some hl
    obtain rfl : order = order' := Option.some.inj (hd.symm.trans hd')
    have hc : ¬ (command.newPrice = loc.price ∧ command.newQuantity.units ≤ order.units) := by
      rintro ⟨hprice, hle⟩
      rcases hmoved with hne | hlt
      · exact hne hprice
      · omega
    rw [hview, hresult, hremoved]
    exact inv.valid.replace_sweep hf hc

/-- Two sales at different prices, and a purchase of seven units up to the worse price. -/
theorem twoSales_swept :
    let sales : List Command :=
      [.submit ⟨SequenceNumber.of 1, OrderId.of 1, .sell, .limit, Quantity.of 5,
          some (Price.of 101)⟩,
        .submit ⟨SequenceNumber.of 2, OrderId.of 2, .sell, .limit, Quantity.of 4,
          some (Price.of 100)⟩]
    let order : NewOrder := ⟨SequenceNumber.of 3, OrderId.of 3, .buy, .limit, Quantity.of 7,
      some (Price.of 101)⟩
    (∃ rest, Sweep order.orderId .buy .limit (some (Price.of 101))
      ((run sales).view.orders .sell) 7 ((run sales).submit order).2.executions
      (((run sales).submit order).1.view.orders .sell) rest) ∧
    ((run sales).submit order).2.executions =
      [⟨OrderId.of 2, OrderId.of 3, Price.of 100, Quantity.of 4⟩,
        ⟨OrderId.of 1, OrderId.of 3, Price.of 101, Quantity.of 3⟩] := by
  intro sales order
  obtain ⟨rest, hsweep, -⟩ := (matching_sweeps sales).1 order (by decide +kernel)
  exact ⟨⟨rest, hsweep⟩, by decide +kernel⟩

end OrderBook

end LowLatencyExchange
