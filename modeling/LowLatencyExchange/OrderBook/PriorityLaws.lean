import LowLatencyExchange.OrderBook.Simulation
import LowLatencyExchange.Library.StableOrder
import Mathlib.Tactic

/-!
# Laws of the priority book

A reachable priority book has each id once, its sides in price order, only seen ids and no
crossing pair of prices. Units are counted per side and kind of order; each operation
changes the counts of one side by what it puts or takes there.
-/
namespace LowLatencyExchange

structure ActiveOrder where
  side : Side
  price : Price
  remainingQuantity : Quantity
  deriving DecidableEq

def Entry.active (side : Side) (e : Entry) : ActiveOrder := ⟨side, e.1, e.2.remainingQuantity⟩

end LowLatencyExchange

namespace LowLatencyExchange.PriorityBook

structure Valid (b : PriorityBook) : Prop where
  ids : b.UniqueIds
  sorted : ∀ side, (b.orders side).Pairwise (fun x y => ¬ side.before y.1 x.1)
  seen : ∀ side, ∀ e ∈ b.orders side, e.id ∈ b.seen
  uncrossed : ∀ x ∈ b.bids, ∀ y ∈ b.asks, x.1 < y.1

end LowLatencyExchange.PriorityBook

namespace LowLatencyExchange.OrderBook

theorem Inv.valid {b : OrderBook} (inv : b.Inv) : b.view.Valid where
  ids := inv.uniqueIds
  sorted side := view_orders b side ▸ (inv.levels side).entries_pairwise
  seen _ _ he := inv.view_seen (List.mem_map_of_mem he)
  uncrossed x hx y hy := by
    obtain ⟨c, hc, rfl⟩ := List.mem_map.mp hx
    obtain ⟨d, hd, rfl⟩ := List.mem_map.mp hy
    exact inv.uncrossed c hc d hd

end LowLatencyExchange.OrderBook

namespace LowLatencyExchange.PriorityBook

theorem run_valid (commands : List Command) : (run commands).Valid := by
  rw [← (OrderBook.run_view commands).1]
  exact (OrderBook.run_inv commands).valid

/-! ## Ids that do not rest -/

/-- No order with this id rests. -/
def Absent (b : PriorityBook) (id : OrderId) : Prop := ∀ side, id ∉ (b.orders side).map Entry.id

theorem Valid.absent {b : PriorityBook} (valid : b.Valid) {id : OrderId} (hs : id ∉ b.seen) :
    b.Absent id := by
  intro side hm
  obtain ⟨e, he, rfl⟩ := List.mem_map.mp hm
  exact hs (valid.seen side e he)

theorem Absent.markSeen {b : PriorityBook} {id : OrderId} (h : b.Absent id) (id' : OrderId) :
    (b.markSeen id').Absent id := fun side => b.orders_markSeen id' side ▸ h side

theorem Absent.take {b : PriorityBook} {id : OrderId} (h : b.Absent id) (incoming : OrderId)
    (side : Side) (type : OrderType) (limitPrice : Option Price) (q : Nat) :
    (b.take incoming side type limitPrice q).book.Absent id :=
  fun s hm => h s (take_ids b incoming side type limitPrice q hm)

theorem absent_remove (b : PriorityBook) (id : OrderId) : (b.remove id).Absent id :=
  fun side => b.orders_remove id side ▸ UniqueKeys.notMem_filter id

/-! ## Fills and executions -/

/-- A fill takes some units, and no more than it has, from an order of the list. -/
theorem mem_fills {eligible : Price → Bool} {es : List Entry} {q : Nat} {x : Entry × Nat}
    (h : x ∈ (fill eligible es q).fills Entry.units) :
    x.1 ∈ es ∧ 0 < x.2 ∧ x.2 ≤ x.1.units := by
  unfold fill at h
  have hgone : ∀ tail, es = (GreedyFill.fill (fun e : Entry => eligible e.1) Entry.units Entry.cut
      es q).gone ++ tail → ∀ e ∈ (GreedyFill.fill (fun e : Entry => eligible e.1) Entry.units
        Entry.cut es q).gone, e ∈ es := by
    intro tail hs e he
    rw [hs]
    exact List.mem_append_left _ he
  rcases GreedyFill.fill_split (fun e : Entry => eligible e.1) Entry.units Entry.cut es q with
    ⟨tail, hp, hs, _⟩ | ⟨a, n, tail, hp, hs, _, _, hn, hlt, _⟩
  · rw [GreedyFill.Outcome.fills, hp] at h
    simp only [Option.toList_none, List.append_nil] at h
    obtain ⟨e, he, rfl⟩ := List.mem_map.mp h
    exact ⟨hgone tail hs e he, e.units_pos, le_rfl⟩
  · rw [GreedyFill.Outcome.fills, hp] at h
    rcases List.mem_append.mp h with h | h
    · obtain ⟨e, he, rfl⟩ := List.mem_map.mp h
      exact ⟨hgone (a :: tail) hs e he, e.units_pos, le_rfl⟩
    · obtain rfl := List.mem_singleton.mp h
      refine ⟨?_, hn, hlt.le⟩
      rw [hs]
      simp

theorem executionOf_units {incoming : OrderId} {e : Entry} {n : Nat} (h0 : 0 < n)
    (hn : n ≤ e.units) : (executionOf incoming (e, n)).quantity.units = n := by
  have hlt : n < 2 ^ 64 := lt_of_le_of_lt hn e.2.remainingQuantity.lt
  have hq : Quantity.fromUnits n = some ⟨n, h0, hlt⟩ := dif_pos ⟨h0, hlt⟩
  simp [executionOf, hq]

/-! ## Joining a queue -/

/-- A new order goes behind the orders whose price is at least as good, and before those
whose price is worse. -/
theorem enqueue_split {side : Side} {es : List Entry}
    (h : es.Pairwise (fun x y => ¬ side.before y.1 x.1)) (e : Entry) :
    ∃ front back, es = front ++ back ∧ enqueue side e es = front ++ e :: back ∧
      (∀ x ∈ front, ¬ side.before e.1 x.1) ∧ ∀ y ∈ back, side.before e.1 y.1 :=
  StableOrder.orderedInsert_split h e

/-! ## Units by kind of order -/

/-- The exact units that orders of a kind hold on a side. -/
def unitsOn (b : PriorityBook) (side : Side) (kind : Entry → Bool) : Nat :=
  GreedyFill.total Entry.units ((b.orders side).filter kind)

section Units

variable (b : PriorityBook) (side : Side) (kind : Entry → Bool)

@[simp] theorem unitsOn_setOrders_contra (es : List Entry) :
    (b.setOrders side.contra es).unitsOn side kind = b.unitsOn side kind := by
  rw [unitsOn, orders_setOrders_contra, unitsOn]

@[simp] theorem unitsOn_contra_setOrders (es : List Entry) :
    (b.setOrders side es).unitsOn side.contra kind = b.unitsOn side.contra kind := by
  rw [unitsOn, orders_contra_setOrders, unitsOn]

@[simp] theorem unitsOn_markSeen (id : OrderId) :
    (b.markSeen id).unitsOn side kind = b.unitsOn side kind := by
  cases side <;> rfl

@[simp] theorem unitsOn_take_own (incoming : OrderId) (type : OrderType)
    (limitPrice : Option Price) (q : Nat) :
    (b.take incoming side type limitPrice q).book.unitsOn side kind = b.unitsOn side kind := by
  rw [unitsOn, take_orders_own, unitsOn]

/-- What taking liquidity removes from the contra side, by kind of order. -/
theorem unitsOn_take_contra (hk : ∀ e n, kind (Entry.cut e n) = kind e) (incoming : OrderId)
    (type : OrderType) (limitPrice : Option Price) (q : Nat) :
    b.unitsOn side.contra kind =
      (b.take incoming side type limitPrice q).book.unitsOn side.contra kind +
        ((((fill (OrderBook.crosses side type limitPrice) (b.orders side.contra) q).fills
          Entry.units).filter (fun x => kind x.1)).map Prod.snd).sum := by
  rw [unitsOn, unitsOn, take_orders_contra]
  exact fill_conserves _ kind hk _ q

theorem unitsOn_enqueue (e : Entry) :
    (b.setOrders side (enqueue side e (b.orders side))).unitsOn side kind =
      b.unitsOn side kind + if kind e then e.units else 0 := by
  have hperm := (b.orders side).perm_orderedInsert (fun x y => side.before x.1 y.1) e
  have hsum := ((hperm.filter kind).map Entry.units).sum_eq
  rw [unitsOn, orders_setOrders, enqueue, GreedyFill.total, hsum, List.filter_cons]
  split_ifs
  · simp [unitsOn, GreedyFill.total, Nat.add_comm]
  · simp [unitsOn, GreedyFill.total]

end Units

/-- An eligible price makes every better price eligible. -/
theorem crosses_mono {side : Side} {type : OrderType} {limitPrice : Option Price}
    {p q : Price} (h : ¬ side.contra.before q p)
    (hq : OrderBook.crosses side type limitPrice q) : OrderBook.crosses side type limitPrice p := by
  cases type with
  | market => cases side <;> simp [OrderBook.crosses]
  | limit =>
    cases limitPrice with
    | none => cases side <;> simp [OrderBook.crosses] at hq
    | some limit =>
      cases side <;> simp only [OrderBook.crosses, Side.contra, Side.before, not_lt, reduceCtorEq,
        decide_false, Bool.false_or, Option.any_some, decide_eq_true_eq] at h hq ⊢
      · exact h.trans hq
      · exact hq.trans h

/-- Taking liquidity leaves over what the eligible orders do not hold. -/
theorem Valid.take_rest {b : PriorityBook} (valid : b.Valid) (incoming : OrderId) (side : Side)
    (type : OrderType) (limitPrice : Option Price) (q : Nat) :
    (b.take incoming side type limitPrice q).rest =
      q - b.unitsOn side.contra (fun e => OrderBook.crosses side type limitPrice e.1) := by
  refine GreedyFill.fill_rest_eq _ _ _ ((valid.sorted side.contra).imp ?_) q
  intro x y hxy hy
  exact crosses_mono hxy hy

/-! ## The order an id finds -/

/-- The resting order with an id, as its side, price and remaining quantity. -/
def active (b : PriorityBook) (id : OrderId) : Option ActiveOrder :=
  (b.find id).map fun x => x.2.active x.1

section Found

variable {b : PriorityBook} {id : OrderId} {side : Side} {e : Entry}

theorem Valid.found (valid : b.Valid) (hf : b.find id = some (side, e)) :
    e ∈ b.orders side ∧ e.id = id := valid.ids.find_eq_some.mp hf

theorem Valid.contra_ids (valid : b.Valid) (hf : b.find id = some (side, e)) :
    id ∉ (b.orders side.contra).map Entry.id := by
  obtain ⟨he, hid⟩ := valid.found hf
  exact hid ▸ valid.ids.contra_notMem he

theorem Valid.remove_eq (valid : b.Valid) (hf : b.find id = some (side, e)) :
    b.remove id = b.setOrders side ((b.orders side).filter (fun x => x.id ≠ id)) :=
  PriorityBook.remove_eq (valid.contra_ids hf)

/-- The side of a resting order is that order and the rest, up to order. -/
theorem Valid.perm_remove (valid : b.Valid) (hf : b.find id = some (side, e)) :
    (b.orders side).Perm (e :: (b.remove id).orders side) := by
  obtain ⟨he, hid⟩ := valid.found hf
  rw [valid.remove_eq hf, orders_setOrders, ← hid]
  exact UniqueKeys.perm_cons_filter (valid.ids.side side) he

theorem Valid.unitsOn_remove (valid : b.Valid) (hf : b.find id = some (side, e))
    (kind : Entry → Bool) :
    b.unitsOn side kind =
      (if kind e then e.units else 0) + (b.remove id).unitsOn side kind := by
  have hsum := (((valid.perm_remove hf).filter kind).map Entry.units).sum_eq
  rw [unitsOn, GreedyFill.total, hsum, List.filter_cons]
  split_ifs
  · simp [unitsOn, GreedyFill.total]
  · simp [unitsOn, GreedyFill.total]

theorem Valid.unitsOn_remove_contra (valid : b.Valid) (hf : b.find id = some (side, e))
    (kind : Entry → Bool) :
    (b.remove id).unitsOn side.contra kind = b.unitsOn side.contra kind := by
  rw [valid.remove_eq hf, unitsOn_contra_setOrders]

/-- The side of a reduced order is that order, reduced, and the rest, up to order. -/
theorem Valid.perm_reduce (valid : b.Valid) (hf : b.find id = some (side, e))
    (quantity : Quantity) :
    ((b.reduce id quantity).orders side).Perm
      (setQuantity id quantity e :: (b.remove id).orders side) := by
  have hperm := (valid.perm_remove hf).map (setQuantity id quantity)
  have hrest : ((b.remove id).orders side).map (setQuantity id quantity) =
      (b.remove id).orders side := by
    rw [orders_remove]
    exact map_setQuantity_of_notMem (UniqueKeys.notMem_filter id) quantity
  rw [List.map_cons, hrest] at hperm
  rwa [orders_reduce]

theorem Valid.unitsOn_reduce (valid : b.Valid) (hf : b.find id = some (side, e))
    (quantity : Quantity) (kind : Entry → Bool) :
    (b.reduce id quantity).unitsOn side kind =
      (if kind (setQuantity id quantity e) then quantity.units else 0) +
        (b.remove id).unitsOn side kind := by
  have hunits : (setQuantity id quantity e).units = quantity.units := by
    rw [setQuantity, if_pos (valid.found hf).2]
    rfl
  have hsum := (((valid.perm_reduce hf quantity).filter kind).map Entry.units).sum_eq
  rw [unitsOn, GreedyFill.total, hsum, List.filter_cons]
  split_ifs
  · simp [unitsOn, GreedyFill.total, hunits]
  · simp [unitsOn, GreedyFill.total]

theorem Valid.unitsOn_reduce_contra (valid : b.Valid) (hf : b.find id = some (side, e))
    (quantity : Quantity) (kind : Entry → Bool) :
    (b.reduce id quantity).unitsOn side.contra kind = b.unitsOn side.contra kind := by
  rw [reduce_eq (valid.contra_ids hf), unitsOn_contra_setOrders]

/-- A removal keeps validity. -/
theorem Valid.remove (valid : b.Valid) (id : OrderId) : (b.remove id).Valid := by
  refine ⟨?_, ?_, ?_, ?_⟩
  · have hsub : ((b.remove id).bids ++ (b.remove id).asks).Sublist (b.bids ++ b.asks) :=
      List.Sublist.append List.filter_sublist List.filter_sublist
    exact valid.ids.sublist (hsub.map _)
  · intro side
    rw [orders_remove]
    exact (valid.sorted side).sublist List.filter_sublist
  · intro side e he
    rw [orders_remove] at he
    exact valid.seen side e (List.mem_of_mem_filter he)
  · intro x hx y hy
    exact valid.uncrossed x (List.mem_of_mem_filter hx) y (List.mem_of_mem_filter hy)

theorem Valid.markSeen (valid : b.Valid) (id : OrderId) : (b.markSeen id).Valid := by
  refine ⟨valid.ids, fun side => b.orders_markSeen id side ▸ valid.sorted side, ?_,
    valid.uncrossed⟩
  intro side e he
  rw [orders_markSeen] at he
  exact Finset.mem_insert_of_mem (valid.seen side e he)

end Found

end LowLatencyExchange.PriorityBook
