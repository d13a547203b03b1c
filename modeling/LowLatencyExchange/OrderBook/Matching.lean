import LowLatencyExchange.OrderBook.Invariant
import Mathlib.Tactic

/-!
# The matching loops are a greedy fill

The inner loop of `match_against_book` is a greedy fill of one queue, and the outer loop a
greedy fill of the cells of the whole contra side, up to the first price that does not
cross. Orders that are filled leave the queue, the index and the counter together.
-/
namespace LowLatencyExchange.OrderBook

/-- The greedy fill of one queue. -/
def fillQueue (orders : List Node) (q : Nat) : GreedyFill.Outcome Node :=
  GreedyFill.fill (fun _ => true) Node.units Node.cut orders q

/-- The greedy fill of the cells of one side. -/
def fillCells (eligible : Price → Bool) (cs : List Cell) (q : Nat) : GreedyFill.Outcome Cell :=
  GreedyFill.fill (fun c => eligible c.1) Cell.units Cell.cut cs q

/-- The loop state after a fill. -/
def Matching.after (s : Matching) (incoming : OrderId) (o : GreedyFill.Outcome Cell) : Matching where
  remainingUnits := o.rest
  restingOrders := eraseAll s.restingOrders (o.gone.map Cell.id)
  restingOrderCount := s.restingOrderCount - o.gone.length
  executions := s.executions ++
    (o.fills Cell.units).map (fun x => PriorityBook.executionOf incoming (x.1.entry, x.2))

theorem fillCells_level (eligible : Price → Bool) (price : Price) (h : eligible price)
    (orders : List Node) (q : Nat) :
    fillCells eligible (orders.map (Prod.mk price)) q =
      { gone := (fillQueue orders q).gone.map (Prod.mk price)
        part := (fillQueue orders q).part.map (fun x => ((price, x.1), x.2))
        left := (fillQueue orders q).left.map (Prod.mk price)
        rest := (fillQueue orders q).rest } :=
  GreedyFill.fill_map (Prod.mk price) (fun _ => h) (fun _ => rfl) (fun _ _ => rfl) orders q

/-- Filling past a level whose price is eligible. -/
theorem fillCells_append (eligible : Price → Bool) (price : Price) (h : eligible price)
    (orders : List Node) (cs : List Cell) (q : Nat) :
    fillCells eligible (orders.map (Prod.mk price) ++ cs) q =
      if (fillQueue orders q).left = [] then
        let o := fillCells eligible cs (fillQueue orders q).rest
        { o with gone := orders.map (Prod.mk price) ++ o.gone }
      else
        let o := fillCells eligible (orders.map (Prod.mk price)) q
        { o with left := o.left ++ cs } := by
  have heligible : ∀ c ∈ orders.map (Prod.mk price), eligible c.1 := by
    intro c hc
    obtain ⟨n, _, rfl⟩ := List.mem_map.mp hc
    exact h
  have hlevel := fillCells_level eligible price h orders q
  have hleft := congrArg GreedyFill.Outcome.left hlevel
  have hrest := congrArg GreedyFill.Outcome.rest hlevel
  unfold fillCells at hleft hrest ⊢
  rw [GreedyFill.fill_append _ _ _ heligible]
  split_ifs with hf hq hq
  · rw [hrest]
  · exact absurd (by simpa [hleft] using hf) hq
  · exact absurd (by simpa [hleft] using hq) hf
  · rfl

section Queue

variable (incoming : OrderId) (price : Price) (n : Node) (orders : List Node) (total : UInt64)
  (s : Matching)

/-- An order with no more than the remaining units is filled and leaves. -/
theorem matchQueue_full (hq : 0 < s.remainingUnits) (hu : n.units ≤ s.remainingUnits) :
    matchQueue incoming price (n :: orders) total s =
      matchQueue incoming price orders (total - UInt64.ofNat n.units)
        { remainingUnits := s.remainingUnits - n.units
          restingOrders := s.restingOrders.erase n.order.orderId
          restingOrderCount := s.restingOrderCount - 1
          executions := s.executions ++
            [⟨n.order.orderId, incoming, price, n.order.remainingQuantity⟩] } := by
  have hmin : min s.remainingUnits n.order.remainingQuantity.units =
      n.order.remainingQuantity.units := min_eq_right hu
  simp only [matchQueue, hq, hmin, dif_pos, Nat.sub_self]
  rfl

/-- A larger order is cut and stays in front; nothing remains to be matched. -/
theorem matchQueue_cut (hq : 0 < s.remainingUnits) (hu : s.remainingUnits < n.units) :
    matchQueue incoming price (n :: orders) total s =
      (Node.cut n s.remainingUnits :: orders, total - UInt64.ofNat s.remainingUnits,
        { s with
          remainingUnits := 0
          executions := s.executions ++
            [PriorityBook.executionOf incoming ((price, n.order), s.remainingUnits)] }) := by
  have hu' : s.remainingUnits < n.order.remainingQuantity.units := hu
  have hmin : min s.remainingUnits n.order.remainingQuantity.units = s.remainingUnits :=
    min_eq_left hu'.le
  have hne : ¬ n.order.remainingQuantity.units - s.remainingUnits = 0 := by omega
  have hlt : s.remainingUnits < 2 ^ 64 := hu'.trans n.order.remainingQuantity.lt
  have hfrom : Quantity.fromUnits s.remainingUnits = some ⟨s.remainingUnits, hq, hlt⟩ :=
    dif_pos ⟨hq, hlt⟩
  simp only [matchQueue, hq, hmin, dif_pos, hne, dif_neg, not_false_eq_true, Nat.sub_self,
    Node.cut, RestingOrder.cut, hu', PriorityBook.executionOf, hfrom, Option.getD_some]
  rfl

theorem matchQueue_stop (hq : s.remainingUnits = 0) :
    matchQueue incoming price orders total s = (orders, total, s) := by
  cases orders <;> simp [matchQueue, hq]

end Queue

theorem matchQueue_eq (incoming : OrderId) (price : Price) (orders : List Node)
    (total : UInt64) (s : Matching) :
    (matchQueue incoming price orders total s).1 = (fillQueue orders s.remainingUnits).left ∧
    (matchQueue incoming price orders total s).2.2 =
      s.after incoming (fillCells (fun _ => true) (orders.map (Prod.mk price)) s.remainingUnits) := by
  induction orders generalizing total s with
  | nil => simp [matchQueue, fillQueue, fillCells, Matching.after, GreedyFill.Outcome.fills, eraseAll]
  | cons n orders ih =>
    rcases Nat.eq_zero_or_pos s.remainingUnits with hq | hq
    · rw [matchQueue_stop _ _ _ _ _ hq]
      obtain ⟨_, _, _, _⟩ := s
      subst hq
      simp [fillQueue, fillCells, Matching.after, GreedyFill.Outcome.fills, eraseAll]
    · rcases Nat.lt_or_ge s.remainingUnits n.units with hu | hu
      · have hcell : s.remainingUnits < Cell.units (price, n) := hu
        rw [matchQueue_cut _ _ _ _ _ _ hq hu, fillQueue, fillCells, List.map_cons,
          GreedyFill.fill_cons_cut hq rfl hu, GreedyFill.fill_cons_cut hq rfl hcell]
        simp [Matching.after, GreedyFill.Outcome.fills, eraseAll, Cell.entry]
      · have hcell : Cell.units (price, n) ≤ s.remainingUnits := hu
        obtain ⟨hleft, hafter⟩ := ih (total - UInt64.ofNat n.units)
          { remainingUnits := s.remainingUnits - n.units
            restingOrders := s.restingOrders.erase n.order.orderId
            restingOrderCount := s.restingOrderCount - 1
            executions := s.executions ++
              [⟨n.order.orderId, incoming, price, n.order.remainingQuantity⟩] }
        rw [matchQueue_full _ _ _ _ _ _ hq hu, hleft, hafter, fillQueue, fillQueue, fillCells,
          fillCells, List.map_cons, GreedyFill.fill_cons_full hq rfl hu,
          GreedyFill.fill_cons_full hq rfl hcell]
        refine ⟨rfl, ?_⟩
        simp [Matching.after, GreedyFill.Outcome.fills, eraseAll, PriorityBook.executionOf,
          Cell.entry, Cell.units, Cell.id, Entry.id, Node.units, RestingOrder.units, Nat.sub_sub, Nat.add_comm]

/-- The aggregate of a queue follows the fill, modulo `2 ^ 64`. -/
theorem matchQueue_total (incoming : OrderId) (price : Price) (orders : List Node) (s : Matching) :
    (matchQueue incoming price orders (UInt64.ofNat (queueUnits orders)) s).2.1 =
      UInt64.ofNat (queueUnits (matchQueue incoming price orders
        (UInt64.ofNat (queueUnits orders)) s).1) := by
  induction orders generalizing s with
  | nil => simp [matchQueue]
  | cons n orders ih =>
    rcases Nat.eq_zero_or_pos s.remainingUnits with hq | hq
    · rw [matchQueue_stop _ _ _ _ _ hq]
    · rcases Nat.lt_or_ge s.remainingUnits n.units with hu | hu
      · rw [matchQueue_cut _ _ _ _ _ _ hq hu]
        simp only [queueUnits, GreedyFill.total_cons, Node.cut_units hu]
        rw [← UInt64.ofNat_sub (by omega)]
        congr 1
        omega
      · rw [matchQueue_full _ _ _ _ _ _ hq hu]
        have hrest : UInt64.ofNat (queueUnits (n :: orders)) - UInt64.ofNat n.units =
            UInt64.ofNat (queueUnits orders) := by
          rw [← UInt64.ofNat_sub (by simp [queueUnits])]
          simp [queueUnits]
        rw [hrest]
        exact ih _

theorem Matching.after_stop (s : Matching) (incoming : OrderId) (cs : List Cell) :
    s.after incoming ⟨[], none, cs, s.remainingUnits⟩ = s := by
  simp [Matching.after, GreedyFill.Outcome.fills, eraseAll]

/-- A fill that uses up `cs` followed by another one. -/
theorem Matching.after_after (s : Matching) (incoming : OrderId) (cs : List Cell) (rest : Nat)
    (o : GreedyFill.Outcome Cell) :
    (s.after incoming ⟨cs, none, [], rest⟩).after incoming o =
      s.after incoming { o with gone := cs ++ o.gone } := by
  simp [Matching.after, GreedyFill.Outcome.fills, eraseAll, Nat.sub_sub]

@[simp] theorem cells_cons (price : Price) (level : PriceLevel) (ls : Levels) :
    cells ((price, level) :: ls) = level.orders.map (Prod.mk price) ++ cells ls := rfl

theorem LevelsValid.tail {side : Side} {e : Price × PriceLevel} {ls : Levels}
    (h : LevelsValid side (e :: ls)) : LevelsValid side ls where
  sorted := (List.pairwise_cons.mp h.sorted).2
  nonempty x hx := h.nonempty x (List.mem_cons_of_mem _ hx)
  total x hx := h.total x (List.mem_cons_of_mem _ hx)

/-- Replacing the level in front by another one at its price. -/
theorem LevelsValid.setHead {side : Side} {price : Price} {level level' : PriceLevel} {ls : Levels}
    (h : LevelsValid side ((price, level) :: ls)) (hne : level'.orders ≠ [])
    (ht : level'.totalUnits = UInt64.ofNat (queueUnits level'.orders)) :
    LevelsValid side ((price, level') :: ls) where
  sorted := List.pairwise_cons.mpr (List.pairwise_cons.mp h.sorted)
  nonempty := List.forall_mem_cons.mpr ⟨hne, h.tail.nonempty⟩
  total := List.forall_mem_cons.mpr ⟨ht, h.tail.total⟩

/-- The outer loop is the greedy fill of the side's cells, and keeps the map valid. -/
theorem matchLevels_eq {side : Side} (crosses : Price → Bool) (incoming : OrderId) (ls : Levels)
    (valid : LevelsValid side ls) (s : Matching) :
    cells (matchLevels crosses incoming ls s).1 =
      (fillCells crosses (cells ls) s.remainingUnits).left ∧
    (matchLevels crosses incoming ls s).2 =
      s.after incoming (fillCells crosses (cells ls) s.remainingUnits) ∧
    LevelsValid side (matchLevels crosses incoming ls s).1 := by
  induction ls generalizing s with
  | nil => exact ⟨rfl, (s.after_stop incoming []).symm, valid⟩
  | cons e ls ih =>
    obtain ⟨price, level⟩ := e
    have hne := valid.nonempty _ List.mem_cons_self
    have htotal := valid.total _ List.mem_cons_self
    obtain ⟨hm, ha⟩ := matchQueue_eq incoming price level.orders level.totalUnits s
    simp only [matchLevels]
    split_ifs with hq hleft
    · rw [hm] at hleft
      obtain ⟨hgone, hpart⟩ := GreedyFill.fill_gone_of_left_nil hleft
      have hlevel := fillCells_level (fun _ => true) price rfl level.orders s.remainingUnits
      rw [fillQueue] at hlevel hleft
      rw [hgone, hpart, hleft] at hlevel
      rw [hlevel] at ha
      obtain ⟨hcells, hafter, hvalid⟩ := ih valid.tail
        (matchQueue incoming price level.orders level.totalUnits s).2.2
      rw [ha] at hcells hafter
      rw [cells_cons, fillCells_append _ _ hq.2, fillQueue, if_pos hleft]
      refine ⟨?_, ?_, hvalid⟩
      · rw [ha, hcells]
        rfl
      · rw [ha, hafter, List.map_nil, Option.map_none, Matching.after_after]
        rfl
    · rw [hm] at hleft
      have hvalid : LevelsValid side ((price,
          ⟨(matchQueue incoming price level.orders level.totalUnits s).2.1,
            (matchQueue incoming price level.orders level.totalUnits s).1⟩) :: ls) := by
        refine valid.setHead (hm ▸ hleft) ?_
        rw [htotal]
        exact matchQueue_total incoming price level.orders s
      refine ⟨?_, ?_, hvalid⟩
      · rw [cells_cons, cells_cons, fillCells_append _ _ hq.2, if_neg hleft, hm,
          fillCells_level crosses price hq.2]
      · rw [cells_cons, fillCells_append _ _ hq.2, if_neg hleft,
          fillCells_level crosses price hq.2, ha, fillCells_level (fun _ => true) price rfl]
        rfl
    · have hstop : fillCells crosses (cells ((price, level) :: ls)) s.remainingUnits =
          ⟨[], none, cells ((price, level) :: ls), s.remainingUnits⟩ := by
        rcases Nat.eq_zero_or_pos s.remainingUnits with hz | hz
        · rw [hz, fillCells, GreedyFill.fill_zero]
        · obtain ⟨n, orders, ho⟩ := List.exists_cons_of_ne_nil hne
          have hc : crosses price = false := by simpa [hz] using hq
          rw [cells_cons, ho, List.map_cons, List.cons_append, fillCells]
          refine GreedyFill.fill_cons_of_not_eligible ?_ _ _
          exact hc
      rw [hstop, s.after_stop]
      exact ⟨rfl, rfl, valid⟩

end LowLatencyExchange.OrderBook
