import LowLatencyExchange.Library.Slices
import LowLatencyExchange.OrderBook.Depth
import LowLatencyExchange.OrderBook.Sweep
import Mathlib.Tactic

/-!
# An order in slices

An order may be sent as several orders that ask together for its units. They trade with the
same resting orders for the same units at the same prices, and leave the same units on the book.
-/
namespace LowLatencyExchange

theorem RestingOrder.cut_cut {order : RestingOrder} {m n : Nat} (h : m + n < order.units) :
    (order.cut m).cut n = order.cut (m + n) := by
  obtain ⟨orderId, sequence, units, hpos, hlt⟩ := order
  have hle : m + n < units := h
  grind [RestingOrder.cut]

/-- The orders of `slices` ask together for what `order` asks for. -/
structure Slices (order : NewOrder) (slices : List NewOrder) : Prop where
  side : ∀ x ∈ slices, x.side = order.side
  type : ∀ x ∈ slices, x.type = order.type
  limitPrice : ∀ x ∈ slices, x.limitPrice = order.limitPrice
  units : (slices.map fun x => x.quantity.units).sum = order.quantity.units

def Result.remainingUnits : Result → Nat
  | .submit result => result.remainingQuantity.elim 0 Quantity.units
  | .cancel _ => 0
  | .replace result => result.remainingQuantity.elim 0 Quantity.units

namespace PriorityBook

/-- Which resting order an execution is with, and at what price. -/
def place (e : Entry) : OrderId × Price := (e.id, e.1)

/-- The units of each execution, by resting order and price. -/
def parts (executions : List Execution) : List ((OrderId × Price) × Nat) :=
  executions.map fun x => ((x.restingOrderId, x.price), x.quantity.units)

/-- The units traded with each resting order, in the order traded. -/
def traded (executions : List Execution) : List ((OrderId × Price) × Nat) :=
  GreedyFill.coalesce (parts executions)

theorem cutting (eligible : Price → Bool) :
    GreedyFill.Cutting (fun e : Entry => eligible e.1) Entry.units Entry.cut place where
  eligible_cut _ _ := rfl
  key_cut e n := by rw [place, Entry.cut_id, Entry.cut_fst, place]
  units_cut _ _ h := Entry.cut_units h
  cut_cut _ _ _ h := Prod.ext rfl (RestingOrder.cut_cut h)

theorem Valid.places {b : PriorityBook} (valid : b.Valid) (side : Side) :
    ((b.orders side).map place).Nodup := by
  refine List.Nodup.of_map Prod.fst ?_
  rw [List.map_map]
  exact valid.ids.side side

theorem take_parts (b : PriorityBook) (incoming : OrderId) (side : Side) (type : OrderType)
    (limitPrice : Option Price) (q : Nat) :
    parts (b.take incoming side type limitPrice q).executions =
      (fill (OrderBook.crosses side type limitPrice) (b.orders side.contra) q).taken Entry.units
        place := by
  rw [parts, take, List.map_map, GreedyFill.Outcome.taken]
  refine List.map_congr_left fun x hx => ?_
  obtain ⟨-, hpos, hle⟩ := mem_fills hx
  exact Prod.ext rfl (executionOf_units hpos hle)

/-- What an order does that is valid and new, by the fill of its units. -/
structure Fills (b : PriorityBook) (order : NewOrder) (o : GreedyFill.Outcome Entry)
    (after : PriorityBook) (result : Result) : Prop where
  accepted : result.accepted = true
  parts : parts result.executions = o.taken Entry.units place
  remaining : result.remainingUnits = if order.type = .limit then o.rest else 0
  contra : after.orders order.side.contra = o.left
  own : ∀ price, after.unitsOn order.side (fun e => e.1 = price) =
    b.unitsOn order.side (fun e => e.1 = price) + if order.limitPrice = some price then o.rest else 0
  seen : after.seen = insert order.orderId b.seen

theorem unitsOn_post (b : PriorityBook) (id : OrderId) (sequence : SequenceNumber) (side : Side)
    (price : Price) {q : Nat} (hq : q < 2 ^ 64) (kind : Price → Bool) :
    (b.post id sequence side price q).unitsOn side (fun e => kind e.1) =
      b.unitsOn side (fun e => kind e.1) + if kind price then q else 0 := by
  rw [post]
  cases hquantity : Quantity.fromUnits q with
  | none =>
    have hzero : q = 0 := by
      unfold Quantity.fromUnits at hquantity
      grind
    simp [hzero]
  | some quantity =>
    have hunits : quantity.units = q := by
      unfold Quantity.fromUnits at hquantity
      grind
    rw [unitsOn_enqueue, ← hunits]
    rfl

theorem elim_fromUnits {q : Nat} (hq : q < 2 ^ 64) :
    (Quantity.fromUnits q).elim 0 Quantity.units = q := by
  unfold Quantity.fromUnits
  grind

theorem take_rest_lt (b : PriorityBook) (order : NewOrder) (type : OrderType)
    (limitPrice : Option Price) :
    (b.take order.orderId order.side type limitPrice order.quantity.units).rest < 2 ^ 64 := by
  have hsum := GreedyFill.fill_sum (fun e : Entry => OrderBook.crosses order.side type limitPrice e.1)
    Entry.units Entry.cut (b.orders order.side.contra) order.quantity.units
  have hlt := order.quantity.lt
  exact lt_of_le_of_lt ((Nat.le_add_left _ _).trans hsum.le) hlt

theorem step_fills {b : PriorityBook} {order : NewOrder} (hvalid : validate order = none)
    (hfresh : order.orderId ∉ b.seen) :
    Fills b order (fill (OrderBook.crosses order.side order.type order.limitPrice)
        (b.orders order.side.contra) order.quantity.units)
      (b.step (.submit order)).1 (b.step (.submit order)).2 := by
  have htrans := b.submit_transition order
  generalize b.step (.submit order) = r at htrans
  cases htrans with
  | invalid _ hv => exact absurd hvalid hv
  | duplicate _ hv hs => exact absurd hs hfresh
  | limit _ price ht hp hs t ht' =>
    have hlt : t.rest < 2 ^ 64 := ht' ▸ (b.markSeen order.orderId).take_rest_lt order _ _
    have hparts := (b.markSeen order.orderId).take_parts order.orderId order.side .limit
      (some price) order.quantity.units
    have hcontra := (b.markSeen order.orderId).take_orders_contra order.orderId order.side .limit
      (some price) order.quantity.units
    rw [← ht', orders_markSeen] at hparts hcontra
    have hrest : t.rest = (fill (OrderBook.crosses order.side .limit (some price))
        (b.orders order.side.contra) order.quantity.units).rest := by
      rw [ht', take, orders_markSeen]
    rw [ht, hp]
    refine ⟨rfl, hparts, ?_, ?_, ?_, ?_⟩
    · rw [if_pos ht, ← hrest]
      exact elim_fromUnits hlt
    · rw [← hcontra]
      unfold post
      cases Quantity.fromUnits t.rest with
      | none => rfl
      | some quantity => exact orders_contra_setOrders _ _ _
    · intro p
      have hpost := t.book.unitsOn_post order.orderId order.sequence order.side price hlt
        (fun x => x = p)
      have hown : t.book.unitsOn order.side (fun e => e.1 = p) =
          b.unitsOn order.side (fun e => e.1 = p) := by
        rw [ht', unitsOn_take_own, unitsOn_markSeen]
      rw [hpost, hown, ← hrest, hp]
      simp
    · rw [post_seen, ht', take_seen]
      rfl
  | market _ ht hp hs t ht' =>
    have hparts := (b.markSeen order.orderId).take_parts order.orderId order.side .market none
      order.quantity.units
    have hcontra := (b.markSeen order.orderId).take_orders_contra order.orderId order.side .market
      none order.quantity.units
    rw [← ht', orders_markSeen] at hparts hcontra
    rw [ht, hp]
    refine ⟨rfl, hparts, ?_, hcontra, ?_, ?_⟩
    · rw [ht]
      rfl
    · intro p
      rw [hp, ht', unitsOn_take_own, unitsOn_markSeen]
      rfl
    · rw [ht', take_seen]
      rfl

/-- The fills of requests that follow each other along one side's list. -/
def fillEach (eligible : Price → Bool) (es : List Entry) (qs : List Nat) :
    List (GreedyFill.Outcome Entry) :=
  GreedyFill.fillEach (fun e => eligible e.1) Entry.units Entry.cut es qs

theorem fillEach_cons (eligible : Price → Bool) (es : List Entry) (q : Nat) (qs : List Nat) :
    fillEach eligible es (q :: qs) =
      fill eligible es q :: fillEach eligible (fill eligible es q).left qs := rfl

/-- What orders do that follow each other, ask for the same, and are all valid and new. -/
structure FillsEach (b : PriorityBook) (order : NewOrder) (os : List (GreedyFill.Outcome Entry))
    (qs : List Nat) (after : PriorityBook) (results : List Result) : Prop where
  accepted : ∀ r ∈ results, r.accepted = true
  parts : parts (results.flatMap Result.executions) =
    os.flatMap (GreedyFill.Outcome.taken Entry.units place)
  remaining : (results.map Result.remainingUnits).sum =
    if order.type = .limit then (os.map GreedyFill.Outcome.rest).sum else 0
  contra : after.orders order.side.contra =
    qs.foldl (fun es q => (fill (OrderBook.crosses order.side order.type order.limitPrice) es q).left)
      (b.orders order.side.contra)
  own : ∀ price, after.unitsOn order.side (fun e => e.1 = price) =
    b.unitsOn order.side (fun e => e.1 = price) +
      if order.limitPrice = some price then (os.map GreedyFill.Outcome.rest).sum else 0

theorem slices_fill {b : PriorityBook} {order : NewOrder} {slices : List NewOrder}
    (hside : ∀ x ∈ slices, x.side = order.side) (htype : ∀ x ∈ slices, x.type = order.type)
    (hlimit : ∀ x ∈ slices, x.limitPrice = order.limitPrice) (hvalid : validate order = none)
    (hfresh : ∀ x ∈ slices, x.orderId ∉ b.seen) (hdistinct : (slices.map NewOrder.orderId).Nodup) :
    FillsEach b order
      (fillEach (OrderBook.crosses order.side order.type order.limitPrice)
        (b.orders order.side.contra) (slices.map fun x => x.quantity.units))
      (slices.map fun x => x.quantity.units)
      (Transducer.run step b (slices.map .submit)) (Transducer.outputs step b (slices.map .submit)) := by
  induction slices generalizing b with
  | nil =>
    refine ⟨nofun, rfl, ?_, rfl, fun price => ?_⟩
    · exact (ite_self 0).symm
    · exact (congrArg (_ + ·) (ite_self 0)).symm
  | cons x slices ih =>
    obtain ⟨hside_x, hside⟩ := List.forall_mem_cons.mp hside
    obtain ⟨htype_x, htype⟩ := List.forall_mem_cons.mp htype
    obtain ⟨hlimit_x, hlimit⟩ := List.forall_mem_cons.mp hlimit
    obtain ⟨hfresh_x, hfresh⟩ := List.forall_mem_cons.mp hfresh
    obtain ⟨hnew, hdistinct⟩ := List.nodup_cons.mp hdistinct
    have hvalid_x : validate x = none := by
      rw [validate_eq_none, htype_x, hlimit_x]
      exact (validate_eq_none order).mp hvalid
    have hfills := step_fills hvalid_x hfresh_x
    have hfresh' : ∀ y ∈ slices, y.orderId ∉ (b.step (.submit x)).1.seen := by
      intro y hy hmem
      rw [hfills.seen] at hmem
      rcases Finset.mem_insert.mp hmem with heq | hmem
      · exact hnew (heq ▸ List.mem_map_of_mem hy)
      · exact hfresh y hy hmem
    have hrest := ih hside htype hlimit hfresh' hdistinct
    have hcontra := hfills.contra
    have hparts := hfills.parts
    have hremaining := hfills.remaining
    rw [hside_x, htype_x, hlimit_x] at hcontra hparts hremaining
    rw [hcontra] at hrest
    simp only [List.map_cons, Transducer.run_cons, Transducer.outputs_cons, fillEach_cons]
    refine ⟨?_, ?_, ?_, ?_, fun price => ?_⟩
    · exact List.forall_mem_cons.mpr ⟨hfills.accepted, hrest.accepted⟩
    · have happend : ∀ xs ys, parts (xs ++ ys) = parts xs ++ parts ys := fun _ _ => List.map_append
      rw [List.flatMap_cons, List.flatMap_cons, happend, hparts, hrest.parts]
    · rw [List.map_cons, List.map_cons, List.sum_cons, List.sum_cons, hremaining, hrest.remaining]
      split_ifs <;> rfl
    · rw [List.foldl_cons, hrest.contra, hcontra]
    · have hown := hfills.own price
      rw [hside_x, htype_x, hlimit_x] at hown
      rw [hrest.own, hown, List.map_cons, List.sum_cons]
      split_ifs <;> rw [Nat.add_assoc]

end PriorityBook

namespace OrderBook

open PriorityBook

/-- The prices of a level map with their units. -/
def levelUnits (ls : Levels) : List (Price × UInt64) := ls.map fun e => (e.1, e.2.totalUnits)

theorem find_levelUnits {b : OrderBook} (inv : b.Inv) (side : Side) (price : Price) :
    OrderedMap.find price (levelUnits (b.levels side)) =
      let units := b.view.unitsOn side (fun e => e.1 = price)
      if units = 0 then none else some (UInt64.ofNat units) := by
  have hlevel := congrArg (Option.map Prod.fst) (find_level inv side price)
  rw [levelUnits, OrderedMap.find_map (fun _ (level : PriceLevel) => level.totalUnits)]
  rw [Option.map_map] at hlevel
  refine hlevel.trans ?_
  have hempty : (b.view.orders side).filter (fun e => e.1 = price) = [] ↔
      b.view.unitsOn side (fun e => e.1 = price) = 0 := by
    unfold unitsOn GreedyFill.total
    constructor
    · intro h
      rw [h]
      rfl
    · intro h
      refine List.eq_nil_iff_forall_not_mem.mpr fun e he => ?_
      have hzero := List.sum_eq_zero_iff.mp h e.units (List.mem_map_of_mem he)
      exact absurd hzero e.units_pos.ne'
  simp only [hempty]
  split_ifs <;> rfl

/-- The units at each price make out the prices of a side and their totals. -/
theorem levelUnits_congr {b b' : OrderBook} (inv : b.Inv) (inv' : b'.Inv) (side : Side)
    (h : ∀ price, b.view.unitsOn side (fun e => e.1 = price) =
      b'.view.unitsOn side (fun e => e.1 = price)) :
    levelUnits (b.levels side) = levelUnits (b'.levels side) := by
  have hsorted : ∀ {b : OrderBook}, b.Inv →
      OrderedMap.Sorted side.before (levelUnits (b.levels side)) :=
    fun inv => List.pairwise_map.mpr (inv.levels side).sorted
  refine (hsorted inv).ext (hsorted inv') fun price => ?_
  rw [find_levelUnits inv, find_levelUnits inv', h price]

theorem valid_of_accepted {b : OrderBook} {order : NewOrder}
    (haccepted : (b.submit order).2.rejection = none) :
    validate order = none ∧ order.orderId ∉ b.seenOrderIds := by
  rw [submit] at haccepted
  split_ifs at haccepted with hinvalid hseen
  exact ⟨Option.not_isSome_iff_eq_none.mp hinvalid, hseen⟩

/-- The run of the priority book from any valid book on. -/
theorem run_view_from {b : OrderBook} (inv : b.Inv) (commands : List Command) :
    ((Transducer.run step b commands).Inv ∧
      (Transducer.run step b commands).view =
        Transducer.run PriorityBook.step b.view commands) ∧
      Transducer.outputs step b commands =
        Transducer.outputs PriorityBook.step b.view commands := by
  refine Transducer.simulation (fun (b : OrderBook) p => b.Inv ∧ b.view = p) ?_ ⟨inv, rfl⟩ commands
  rintro b _ c ⟨inv, rfl⟩
  obtain ⟨hinv, hview, hresult⟩ := step_spec inv c
  exact ⟨⟨hinv, hview⟩, hresult⟩

/-- On every reachable book, orders that follow each other, ask together for what one accepted
order asks for and have new ids of their own, are all accepted and trade what the one order
trades: per resting order, in the same order and at the same prices, their executions add up to
the executions of the one. They leave the same orders on the contra side, together the same
remaining units, and on both sides the same prices with the same units. -/
theorem slices_trade_as_one (commands : List Command) (order : NewOrder) (slices : List NewOrder)
    (h : Slices order slices) (haccepted : ((run commands).submit order).2.rejection = none)
    (hfresh : ∀ x ∈ slices, x.orderId ∉ (run commands).seenOrderIds)
    (hdistinct : (slices.map NewOrder.orderId).Nodup) :
    let whole := (run commands).step (.submit order)
    let sliced := run (commands ++ slices.map .submit)
    let results := Transducer.outputs step (run commands) (slices.map .submit)
    (∀ r ∈ results, r.accepted = true) ∧
    traded (results.flatMap Result.executions) = parts whole.2.executions ∧
    (results.map Result.remainingUnits).sum = whole.2.remainingUnits ∧
    sliced.view.orders order.side.contra = whole.1.view.orders order.side.contra ∧
    ∀ side, levelUnits (sliced.levels side) = levelUnits (whole.1.levels side) := by
  have inv := run_inv commands
  obtain ⟨hinv, hview, hresult⟩ := step_spec inv (.submit order)
  obtain ⟨⟨hinv', hview'⟩, hresults⟩ := run_view_from inv (slices.map .submit)
  obtain ⟨hvalid, hnew⟩ := valid_of_accepted haccepted
  have hone := step_fills (b := (run commands).view) hvalid hnew
  have hmany := slices_fill (b := (run commands).view) h.side h.type h.limitPrice hvalid hfresh
    hdistinct
  obtain ⟨hleft, hrest, htaken⟩ := GreedyFill.fillEach_sum
    (cutting (crosses order.side order.type order.limitPrice)) (inv.valid.places order.side.contra)
    (slices.map fun x => x.quantity.units)
  rw [h.units] at hleft hrest htaken
  have hcontra := hmany.contra.trans (hleft.trans hone.contra.symm)
  intro whole sliced results
  have hsliced : sliced = Transducer.run step (run commands) (slices.map .submit) :=
    Transducer.run_append _ _ _ _
  have hresults' : results = _ := hresults
  rw [hsliced, hview', hresults', hview, hresult]
  refine ⟨hmany.accepted, ?_, ?_, hcontra, fun side => ?_⟩
  · rw [traded, hmany.parts, hone.parts]
    exact htaken
  · rw [hmany.remaining, hone.remaining]
    exact congrArg (fun n => if order.type = .limit then n else 0) hrest
  · refine levelUnits_congr hinv' hinv side fun price => ?_
    rw [hview', hview]
    rcases Side.eq_or_eq_contra side order.side with rfl | rfl
    · rw [hmany.own, hone.own]
      exact congrArg (fun n => _ + if order.limitPrice = some price then n else 0) hrest
    · rw [unitsOn, unitsOn, hcontra]

/-- Two sales, and a purchase of seven units in slices of two and five. -/
theorem twoSales_sliced :
    let sales : List Command :=
      [.submit ⟨SequenceNumber.of 1, OrderId.of 1, .sell, .limit, Quantity.of 3,
          some (Price.of 100)⟩,
        .submit ⟨SequenceNumber.of 2, OrderId.of 2, .sell, .limit, Quantity.of 2,
          some (Price.of 101)⟩]
    let slice : SequenceNumber → OrderId → Quantity → NewOrder := fun sequence id quantity =>
      ⟨sequence, id, .buy, .limit, quantity, some (Price.of 101)⟩
    let order := slice (SequenceNumber.of 3) (OrderId.of 3) (Quantity.of 7)
    let first := slice (SequenceNumber.of 4) (OrderId.of 4) (Quantity.of 2)
    let second := slice (SequenceNumber.of 5) (OrderId.of 5) (Quantity.of 5)
    let results := Transducer.outputs step (run sales)
      ([first, second].map .submit)
    results.flatMap Result.executions =
      [⟨OrderId.of 1, OrderId.of 4, Price.of 100, Quantity.of 2⟩,
        ⟨OrderId.of 1, OrderId.of 5, Price.of 100, Quantity.of 1⟩,
        ⟨OrderId.of 2, OrderId.of 5, Price.of 101, Quantity.of 2⟩] ∧
    traded (results.flatMap Result.executions) =
      parts ((run sales).step (.submit order)).2.executions ∧
    (results.map Result.remainingUnits).sum =
      ((run sales).step (.submit order)).2.remainingUnits := by
  intro sales slice order first second results
  have hslices : Slices order [first, second] := ⟨by decide, by decide, by decide, rfl⟩
  obtain ⟨-, htraded, hremaining, -⟩ := slices_trade_as_one sales order [first, second] hslices
    (by decide +kernel) (by decide +kernel) (by decide +kernel)
  exact ⟨by decide +kernel, htraded, hremaining⟩

end OrderBook

end LowLatencyExchange
