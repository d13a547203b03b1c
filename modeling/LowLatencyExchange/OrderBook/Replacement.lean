import LowLatencyExchange.OrderBook.Simulation
import Mathlib.Tactic

/-!
# What a replace amounts to

A replace that moves the order or gives it more units is a cancel and a new order under the
same id, at the end of the queue of its price. A replace at the same price for no more units
rewrites one quantity and the total of its level.
-/
namespace LowLatencyExchange.OrderBook

theorem markSeen_of_mem {b : OrderBook} {id : OrderId} (h : id ∈ b.seenOrderIds) :
    b.markSeen id = b := by
  unfold markSeen
  rw [Finset.insert_eq_of_mem h]

section Requeue

variable {b : OrderBook} {command : ReplaceOrder} {loc : OrderLocation} {order : RestingOrder}

/-- The new order that a replace stands for. -/
def replacement (command : ReplaceOrder) (side : Side) : NewOrder :=
  ⟨command.sequence, command.orderId, side, .limit, command.newQuantity, some command.newPrice⟩

/-- A replace that loses its place is a cancel and an unchecked submit. -/
theorem replace_eq_cancel_submit (inv : b.Inv)
    (hl : b.restingOrders.lookup command.orderId = some loc)
    (hd : b.deref loc.it = some order)
    (hc : ¬ (command.newPrice = loc.price ∧ command.newQuantity.units ≤ order.units))
    (sequence : SequenceNumber) :
    let submitted := (b.cancel ⟨sequence, command.orderId⟩).1.submitUnchecked
      (replacement command loc.side)
    b.replace command = (submitted.1,
      ⟨command.orderId, submitted.2.executions, submitted.2.remainingQuantity, none⟩) := by
  obtain ⟨-, -, hseen, -⟩ := removeRestingOrder_spec inv hl
  have hold : command.orderId ∈ b.seenOrderIds :=
    inv.indexed.seen _ ((inv.indexed.lookup _ _).mp hl)
  have hcancel : (b.cancel ⟨sequence, command.orderId⟩).1 =
      (b.removeRestingOrder loc command.orderId).1 := by
    simp only [cancel, hl]
  have hmark : (b.removeRestingOrder loc command.orderId).1.markSeen command.orderId =
      (b.removeRestingOrder loc command.orderId).1 := markSeen_of_mem (hseen ▸ hold)
  have hsubmit : (b.removeRestingOrder loc command.orderId).1.submitUnchecked
      (replacement command loc.side) =
        let r := (b.removeRestingOrder loc command.orderId).1.matchAgainstBook command.orderId
          loc.side .limit (some command.newPrice) command.newQuantity.units
        (r.1.insertRemaining command.orderId command.sequence loc.side command.newPrice r.2.1,
          ⟨r.2.2, none, Quantity.fromUnits r.2.1⟩) := by
    rw [submitUnchecked_limit rfl rfl]
    simp only [replacement, hmark]
  intro submitted
  rw [replace_requeue hl hd hc]
  simp only [submitted, hcancel, hsubmit]

/-- At an unchanged price there is nothing to trade with: the book is not crossed. -/
theorem replace_same_price (inv : b.Inv)
    (hl : b.restingOrders.lookup command.orderId = some loc) (hprice : command.newPrice = loc.price) :
    (b.replace command).2.executions = [] := by
  obtain ⟨order, hd, hf⟩ := inv.find_some hl
  by_cases hc : command.newPrice = loc.price ∧ command.newQuantity.units ≤ order.units
  · simp only [replace, hl, hd, Option.elim_some, if_pos hc]
  · obtain ⟨hremoved, hview, -, -⟩ := removeRestingOrder_spec inv hl
    obtain ⟨-, -, hexec, -, -⟩ := matchAgainstBook_spec command.orderId loc.side .limit
      (some command.newPrice) command.newQuantity.units hremoved
    obtain ⟨n, t⟩ := inv.target hl
    have hside := (inv_iff_side b loc.side).mp inv
    have hnone : ∀ e ∈ (b.view.remove command.orderId).orders loc.side.contra,
        crosses loc.side .limit (some command.newPrice) e.1 = false := by
      intro e he
      rw [PriorityBook.orders_remove, view_orders] at he
      obtain ⟨c, hc', rfl⟩ := List.mem_map.mp (List.mem_of_mem_filter he)
      rw [PriorityBook.crosses_limit, hprice]
      exact hside.uncrossed (loc.price, n) t.located.mem c hc'
    rw [replace_requeue hl hd hc]
    dsimp only
    rw [hexec, hview, PriorityBook.take, PriorityBook.fill,
      GreedyFill.fill_of_none_eligible _ _ _ hnone]
    rfl

end Requeue

/-! ## In place -/

/-- Another remaining quantity for the order with an id. -/
def reduceOrder (id : OrderId) (quantity : Quantity) (n : Node) : Node :=
  if n.order.orderId = id then { n with order := { n.order with remainingQuantity := quantity } }
  else n

/-- The level of a price with its total less by a difference and one order rewritten. -/
def reduceLevel (price : Price) (id : OrderId) (quantity : Quantity) (unitDiff : Nat)
    (e : Price × PriceLevel) : Price × PriceLevel :=
  if e.1 = price then
    (e.1, ⟨e.2.totalUnits - UInt64.ofNat unitDiff, e.2.orders.map (reduceOrder id quantity)⟩)
  else e

theorem reduceInPlace_levels {b : OrderBook} (inv : b.Inv) {id : OrderId} {loc : OrderLocation}
    (hl : b.restingOrders.lookup id = some loc) (unitDiff : Nat) (quantity : Quantity) :
    b.reduceInPlace loc unitDiff quantity =
      b.update loc.side ((b.levels loc.side).map (reduceLevel loc.price id quantity unitDiff))
        b.restingOrders b.restingOrderCount b.nextAddress := by
  obtain ⟨n, t⟩ := inv.target hl
  obtain ⟨level, hlevel, -⟩ := t.located.exists_level
  have hside := (inv_iff_side b loc.side).mp inv
  rw [reduceInPlace_eq t, hside.own.sorted.upsert_eq_modify ⟨level, hlevel⟩]
  congr 1
  rw [assign, OrderedMap.modify, List.map_map]
  refine List.map_congr_left fun e he => ?_
  have hassign : ∀ m ∈ e.2.orders, m.assign loc.it quantity = reduceOrder id quantity m := by
    intro m hm
    have hiff := t.address_iff (c := (e.1, m)) (OrderedMap.mem_entries.mpr ⟨e.2, he, hm⟩)
    unfold Node.assign reduceOrder
    exact if_congr hiff rfl rfl
  by_cases hprice : e.1 = loc.price
  · simp only [Function.comp_apply, reduceLevel, if_pos hprice, List.map_congr_left hassign]
  · have hsame : e.2.orders.map (Node.assign loc.it quantity) = e.2.orders :=
      map_assign_of_ne (fun m hm => t.address ▸ t.located.address_ne he hprice hm) quantity
    simp only [Function.comp_apply, reduceLevel, if_neg hprice, hsame]

/-- What a replace in place changes: one quantity and the total of its level. -/
structure Reduced (before after : OrderBook) (id : OrderId) (loc : OrderLocation)
    (quantity : Quantity) (unitDiff : Nat) : Prop where
  own : after.levels loc.side =
    (before.levels loc.side).map (reduceLevel loc.price id quantity unitDiff)
  contra : after.levels loc.side.contra = before.levels loc.side.contra
  index : after.restingOrders = before.restingOrders
  count : after.restingOrderCount = before.restingOrderCount
  seen : after.seenOrderIds = before.seenOrderIds

theorem replace_in_place {b : OrderBook} (inv : b.Inv) {command : ReplaceOrder}
    {loc : OrderLocation} {order : RestingOrder}
    (hl : b.restingOrders.lookup command.orderId = some loc) (hd : b.deref loc.it = some order)
    (hc : command.newPrice = loc.price ∧ command.newQuantity.units ≤ order.units) :
    (b.replace command).2 = ⟨command.orderId, [], some command.newQuantity, none⟩ ∧
      Reduced b (b.replace command).1 command.orderId loc command.newQuantity
        (order.units - command.newQuantity.units) := by
  have hreplace : b.replace command =
      (b.reduceInPlace loc (order.units - command.newQuantity.units) command.newQuantity,
        ⟨command.orderId, [], some command.newQuantity, none⟩) := by
    simp only [replace, hl, hd, Option.elim_some, if_pos hc]
  rw [hreplace, reduceInPlace_levels inv hl]
  refine ⟨rfl, ?_⟩
  obtain ⟨side, price, it⟩ := loc
  cases side <;> exact ⟨rfl, rfl, rfl, rfl, rfl⟩

/-- On every reachable book, a replace of a resting order at another price or for more units
leaves the book and returns the executions and the remaining quantity of a cancel followed by
the submit of the new order with the same id, unchecked for duplicates; at the same price it
executes nothing. A replace at the same price for no more units executes nothing and changes
only that order's quantity, in its place, and the total of its level. -/
theorem replace_behaviour (commands : List Command) (command : ReplaceOrder) (loc : OrderLocation)
    (hl : (run commands).restingOrders.lookup command.orderId = some loc) :
    ∃ order, (run commands).deref loc.it = some order ∧ order.orderId = command.orderId ∧
      (command.newPrice ≠ loc.price ∨ order.units < command.newQuantity.units →
        (∀ sequence, let submitted := ((run commands).cancel ⟨sequence, command.orderId⟩).1
            |>.submitUnchecked (replacement command loc.side)
          ((run commands).replace command).1 = submitted.1 ∧
          ((run commands).replace command).2.executions = submitted.2.executions ∧
          ((run commands).replace command).2.remainingQuantity = submitted.2.remainingQuantity) ∧
        (command.newPrice = loc.price → ((run commands).replace command).2.executions = [])) ∧
      (command.newPrice = loc.price → command.newQuantity.units ≤ order.units →
        ((run commands).replace command).2 =
          ⟨command.orderId, [], some command.newQuantity, none⟩ ∧
        Reduced (run commands) ((run commands).replace command).1 command.orderId loc
          command.newQuantity (order.units - command.newQuantity.units)) := by
  have inv := run_inv commands
  obtain ⟨n, t⟩ := inv.target hl
  refine ⟨n.order, t.deref, t.orderId, ?_, ?_⟩
  · intro hmoved
    have hc : ¬ (command.newPrice = loc.price ∧ command.newQuantity.units ≤ n.order.units) := by
      rintro ⟨hprice, hle⟩
      rcases hmoved with hne | hlt
      · exact hne hprice
      · omega
    refine ⟨fun sequence => ?_, fun hprice => replace_same_price inv hl hprice⟩
    rw [replace_eq_cancel_submit inv hl t.deref hc sequence]
    exact ⟨rfl, rfl, rfl⟩
  · intro hprice hle
    exact replace_in_place inv hl t.deref ⟨hprice, hle⟩

/-- A sale of five units is raised to eight at its price. -/
theorem raisedSale_requeued :
    let sale : List Command := [.submit ⟨SequenceNumber.of 1, OrderId.of 1, .sell, .limit,
      Quantity.of 5, some (Price.of 101)⟩]
    let command : ReplaceOrder :=
      ⟨SequenceNumber.of 2, OrderId.of 1, Quantity.of 8, Price.of 101⟩
    ((run sale).replace command).2.executions = [] ∧
    ((run sale).replace command).1 =
      (((run sale).cancel ⟨SequenceNumber.of 2, OrderId.of 1⟩).1.submitUnchecked
        (replacement command .sell)).1 := by
  intro sale command
  have hl : (run sale).restingOrders.lookup command.orderId = some ⟨.sell, Price.of 101, 0⟩ := by
    decide +kernel
  obtain ⟨order, hd, -, hmoved, -⟩ := replace_behaviour sale command ⟨.sell, Price.of 101, 0⟩ hl
  have hunits : order.units < command.newQuantity.units := by
    have hfive : (run sale).deref 0 =
        some ⟨OrderId.of 1, SequenceNumber.of 1, Quantity.of 5⟩ := by decide +kernel
    obtain rfl := Option.some.inj (hfive.symm.trans hd)
    decide
  obtain ⟨hsame, hnone⟩ := hmoved (.inr hunits)
  exact ⟨hnone rfl, (hsame (SequenceNumber.of 2)).1⟩

end LowLatencyExchange.OrderBook
