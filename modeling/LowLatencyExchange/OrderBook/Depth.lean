import LowLatencyExchange.OrderBook.Queries
import LowLatencyExchange.OrderBook.PriorityLaws
import Mathlib.Tactic

/-!
# Depth as an aggregation of resting orders

A depth list names each price once, in comparator order, with the wrapped units and the
number of orders there. It is a function of the orders alone: `aggregate` adds them up one
by one into an ordered map, in any order within a price, and the level map of a valid book
holds the same totals.
-/
namespace LowLatencyExchange

/-- Units and number of orders, added up per price. -/
abbrev Aggregates := List (Price × (UInt64 × Nat))

def addOrder (side : Side) (m : Aggregates) (e : Price × Quantity) : Aggregates :=
  OrderedMap.upsert side.before e.1 (0, 0) (fun v => (v.1 + UInt64.ofNat e.2.units, v.2 + 1)) m

def aggregateQuote (x : Price × (UInt64 × Nat)) : LevelQuote := ⟨x.1, x.2.1, x.2.2⟩

/-- The aggregation of a list of priced quantities. -/
def aggregate (side : Side) (es : List (Price × Quantity)) : Aggregates :=
  es.foldl (addOrder side) []

/-- The units of a list of priced quantities. -/
def pricedUnits (es : List (Price × Quantity)) : Nat := (es.map (fun e => e.2.units)).sum

section Aggregate

variable (side : Side)

theorem sorted_foldl_add (es : List (Price × Quantity)) {m : Aggregates}
    (h : OrderedMap.Sorted side.before m) :
    OrderedMap.Sorted side.before (es.foldl (addOrder side) m) := by
  induction es generalizing m with
  | nil => exact h
  | cons e es ih => exact ih (h.upsert _ _ _)

theorem find_foldl_add (es : List (Price × Quantity)) {m : Aggregates}
    (h : OrderedMap.Sorted side.before m) (price : Price) :
    OrderedMap.find price (es.foldl (addOrder side) m) =
      let here := es.filter (fun e => e.1 = price)
      if here = [] then OrderedMap.find price m
      else
        let v := (OrderedMap.find price m).getD (0, 0)
        some (v.1 + UInt64.ofNat (pricedUnits here), v.2 + here.length) := by
  induction es generalizing m with
  | nil => rfl
  | cons e es ih =>
    have hsorted : OrderedMap.Sorted side.before (addOrder side m e) := h.upsert _ _ _
    rw [List.foldl_cons, ih hsorted, addOrder, h.find_upsert]
    by_cases hp : e.1 = price
    · subst hp
      simp only [decide_true, List.filter_cons_of_pos, if_true, Option.getD_some, reduceCtorEq,
        if_false, pricedUnits, List.map_cons, List.sum_cons, List.length_cons, UInt64.ofNat_add]
      split_ifs with hnil
      · simp [hnil]
      · simp only [UInt64.add_assoc, Nat.add_assoc, Nat.add_comm 1]
    · have hskip : (e :: es).filter (fun e => decide (e.1 = price)) =
          es.filter (fun e => decide (e.1 = price)) :=
        List.filter_cons_of_neg (by simpa using hp)
      rw [hskip, if_neg (Ne.symm hp)]

/-- The aggregates at a price are those of the orders there. -/
theorem find_aggregate (es : List (Price × Quantity)) (price : Price) :
    OrderedMap.find price (aggregate side es) =
      let here := es.filter (fun e => e.1 = price)
      if here = [] then none else some (UInt64.ofNat (pricedUnits here), here.length) := by
  have := find_foldl_add side es (m := []) List.Pairwise.nil price
  simpa [aggregate] using this

/-- Aggregation looks only at the orders of each price, so it may take the prices in any
order. -/
theorem aggregate_congr {es es' : List (Price × Quantity)}
    (h : ∀ price, es.filter (fun e => e.1 = price) = es'.filter (fun e => e.1 = price)) :
    aggregate side es = aggregate side es' := by
  refine (sorted_foldl_add side es List.Pairwise.nil).ext (sorted_foldl_add side es' List.Pairwise.nil)
    fun price => ?_
  have := find_aggregate side es price
  rw [h price, ← find_aggregate side es' price] at this
  exact this

end Aggregate

/-- An entry as a priced quantity. -/
def Entry.priced (e : Entry) : Price × Quantity := (e.1, e.2.remainingQuantity)

namespace OrderBook

/-- The orders of a side at a price are the queue of its level. -/
theorem filter_price {b : OrderBook} (inv : b.Inv) (side : Side) (price : Price) :
    (b.view.orders side).filter (fun e => e.1 = price) =
      ((OrderedMap.find price (b.levels side)).elim [] PriceLevel.orders).map
        (fun n => ((price, n.order) : Entry)) := by
  have hkey := (inv.levels side).sorted.filter_key (g := PriceLevel.orders) price
  have hcomp : (fun e : Entry => decide (e.1 = price)) ∘ Cell.entry =
      fun c : Cell => decide (c.1 = price) := rfl
  rw [view_orders, List.filter_map, hcomp, cells, hkey, List.map_map]
  rfl

/-- The level at a price, from the orders there. -/
theorem find_level {b : OrderBook} (inv : b.Inv) (side : Side) (price : Price) :
    (OrderedMap.find price (b.levels side)).map
        (fun level => (level.totalUnits, level.orders.map Node.order)) =
      let here := (b.view.orders side).filter (fun e => e.1 = price)
      if here = [] then none
      else some (UInt64.ofNat (GreedyFill.total Entry.units here), here.map Prod.snd) := by
  have valid := inv.levels side
  rw [filter_price inv]
  cases hf : OrderedMap.find price (b.levels side) with
  | none => rfl
  | some level =>
    have hmem := OrderedMap.mem_of_find hf
    have hne := valid.nonempty _ hmem
    have htotal := valid.total _ hmem
    have hunits : GreedyFill.total Entry.units (level.orders.map fun n => (price, n.order)) =
        queueUnits level.orders := by
      rw [GreedyFill.total, List.map_map]
      rfl
    have horders : (level.orders.map fun n => ((price, n.order) : Entry)).map Prod.snd =
        level.orders.map Node.order := by
      rw [List.map_map]
      rfl
    simp only [Option.elim_some, List.map_eq_nil_iff, hne, if_false, Option.map_some, hunits,
      horders]
    rw [← htotal]

/-- The quotes of a valid side are the aggregation of its orders. -/
theorem quotes_eq {b : OrderBook} (inv : b.Inv) (side : Side) :
    (b.levels side).map quote =
      (aggregate side ((b.view.orders side).map Entry.priced)).map aggregateQuote := by
  have hkeys : (b.levels side).map (fun e => (e.1, (e.2.totalUnits, e.2.orders.length))) =
      aggregate side ((b.view.orders side).map Entry.priced) := by
    have hsorted : OrderedMap.Sorted side.before
        ((b.levels side).map (fun e => (e.1, (e.2.totalUnits, e.2.orders.length)))) :=
      List.pairwise_map.mpr (inv.levels side).sorted
    refine hsorted.ext (sorted_foldl_add side _ List.Pairwise.nil) fun price => ?_
    have hlevel := congrArg (Option.map fun v => (v.1, v.2.length)) (find_level inv side price)
    have hhere : ((b.view.orders side).map Entry.priced).filter (fun e => e.1 = price) =
        ((b.view.orders side).filter fun e => e.1 = price).map Entry.priced := List.filter_map
    rw [OrderedMap.find_map (fun _ (level : PriceLevel) => (level.totalUnits, level.orders.length)),
      find_aggregate, hhere]
    have hunits : ∀ es : List Entry, pricedUnits (es.map Entry.priced) =
        GreedyFill.total Entry.units es := by
      intro es
      rw [pricedUnits, List.map_map]
      rfl
    simp only [Function.comp_def, List.length_map, Option.map_map] at hlevel
    simp only [hlevel, hunits, List.map_eq_nil_iff, List.length_map]
    split_ifs with hnone
    · rfl
    · rw [Option.map_some, List.length_map]
  rw [← hkeys, List.map_map]
  rfl

/-- The depth of a side is the front of the aggregation of its orders. -/
theorem depth_eq_aggregate {b : OrderBook} (inv : b.Inv) (side : Side) (maxDepth : Nat) :
    ((b.levels side).take maxDepth).map quote =
      ((aggregate side ((b.view.orders side).map Entry.priced)).take maxDepth).map
        aggregateQuote := by
  rw [List.map_take, quotes_eq inv, List.map_take]

/-- The best price of a valid side is that of its first order. -/
theorem head_price {b : OrderBook} (inv : b.Inv) (side : Side) :
    (b.levels side).head?.map Prod.fst = (b.view.orders side).head?.map Prod.fst := by
  have hvalid := inv.levels side
  rw [view_orders]
  cases hls : b.levels side with
  | nil => rfl
  | cons e ls =>
    obtain ⟨n, orders, ho⟩ :=
      List.exists_cons_of_ne_nil (hvalid.nonempty e (hls ▸ List.mem_cons_self))
    simp [cells, OrderedMap.entries, ho, Cell.entry]

theorem restingOrderCount_eq {b : OrderBook} (inv : b.Inv) :
    b.restingOrderCount = (b.view.orders .buy).length + (b.view.orders .sell).length := by
  rw [inv.indexed.count, view_orders, view_orders, (b.places_perm .buy).length_eq]
  simp [sidePlaces, Side.contra]

end OrderBook

end LowLatencyExchange
