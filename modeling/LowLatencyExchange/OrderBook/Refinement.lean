import LowLatencyExchange.OrderBook.Matching
import Mathlib.Tactic

/-!
# The order book refines price-time priority

Each private operation keeps the representation invariant and acts on the view as the
corresponding operation of `PriorityBook`. The statements are generic in the side: a book
is described by the level map of a side and the map of its contra side.
-/
namespace LowLatencyExchange.OrderBook

/-! ## A book seen from one side -/

theorem view_orders (b : OrderBook) (side : Side) :
    b.view.orders side = (cells (b.levels side)).map Cell.entry := by
  cases side <;> rfl

theorem sidePlaces_ids (side : Side) (cs : List Cell) :
    (sidePlaces side cs).map Prod.fst = (cs.map Cell.entry).map Entry.id := by
  simp [sidePlaces, Function.comp_def]

theorem places_perm (b : OrderBook) (side : Side) : (places b).Perm
    (sidePlaces side (cells (b.levels side)) ++
      sidePlaces side.contra (cells (b.levels side.contra))) := by
  cases side
  · exact List.Perm.refl _
  · exact List.perm_append_comm

/-- The invariant, with the sides named relative to one of them. -/
structure SideInv (b : OrderBook) (side : Side) : Prop where
  own : LevelsValid side (b.levels side)
  contra : LevelsValid side.contra (b.levels side.contra)
  indexed : Indexed (sidePlaces side (cells (b.levels side)) ++
    sidePlaces side.contra (cells (b.levels side.contra)))
    b.restingOrders b.restingOrderCount b.seenOrderIds b.nextAddress
  uncrossed : ∀ c ∈ cells (b.levels side), ∀ d ∈ cells (b.levels side.contra),
    side.before d.1 c.1

theorem inv_iff_side (b : OrderBook) (side : Side) : b.Inv ↔ b.SideInv side := by
  constructor
  · intro h
    refine ⟨?_, ?_, h.indexed.perm (b.places_perm side), ?_⟩ <;> cases side
    · exact h.bids
    · exact h.asks
    · exact h.asks
    · exact h.bids
    · exact h.uncrossed
    · exact fun c hc d hd => h.uncrossed d hd c hc
  · intro h
    have hi := h.indexed.perm (b.places_perm side).symm
    cases side
    · exact ⟨h.own, h.contra, hi, h.uncrossed⟩
    · exact ⟨h.contra, h.own, hi, fun c hc d hd => h.uncrossed d hd c hc⟩

/-- A book with the level map of one side, the index, the counter and the allocator
replaced: the shape every private operation has. -/
def update (b : OrderBook) (side : Side) (ls : Levels) (index : Index) (count next : Nat) :
    OrderBook :=
  match side with
  | .buy => { b with bids := ls, restingOrders := index, restingOrderCount := count,
                     nextAddress := next }
  | .sell => { b with asks := ls, restingOrders := index, restingOrderCount := count,
                      nextAddress := next }

section Update

variable (b : OrderBook) (side : Side) (ls : Levels) (index : Index) (count next : Nat)

@[simp] theorem update_seen : (b.update side ls index count next).seenOrderIds = b.seenOrderIds := by
  cases side <;> rfl

theorem view_update : (b.update side ls index count next).view =
    b.view.setOrders side ((cells ls).map Cell.entry) := by
  cases side <;> rfl

theorem inv_update (own : LevelsValid side ls)
    (contra : LevelsValid side.contra (b.levels side.contra))
    (indexed : Indexed (sidePlaces side (cells ls) ++
      sidePlaces side.contra (cells (b.levels side.contra))) index count b.seenOrderIds next)
    (uncrossed : ∀ c ∈ cells ls, ∀ d ∈ cells (b.levels side.contra), side.before d.1 c.1) :
    (b.update side ls index count next).Inv := by
  rw [inv_iff_side _ side]
  cases side <;> exact ⟨own, contra, indexed, uncrossed⟩

end Update

/-! ## Matching -/

/-- What is left after a fill occupies the places that are not gone. -/
theorem fillCells_places (side : Side) (eligible : Price → Bool) (cs : List Cell) (q : Nat) :
    sidePlaces side cs = sidePlaces side (fillCells eligible cs q).gone ++
      sidePlaces side (fillCells eligible cs q).left := by
  unfold fillCells
  rcases GreedyFill.fill_split (fun c => eligible c.1) Cell.units Cell.cut cs q with
    ⟨tail, _, hs, hl⟩ | ⟨a, n, tail, _, hs, hl, _⟩
  · rw [hl, sidePlaces, sidePlaces, sidePlaces, ← List.map_append, ← hs]
  · rw [hl]
    conv_lhs => rw [hs]
    simp [sidePlaces]

/-- A fill leaves no price that was not there before. -/
theorem fillCells_prices {eligible : Price → Bool} {cs : List Cell} {q : Nat} {d : Cell}
    (hd : d ∈ (fillCells eligible cs q).left) : ∃ c ∈ cs, c.1 = d.1 := by
  have hm : (d.id, (⟨.buy, d.1, d.2.address⟩ : OrderLocation)) ∈ sidePlaces .buy cs := by
    rw [fillCells_places .buy eligible cs q]
    exact List.mem_append_right _ (List.mem_map_of_mem hd)
  obtain ⟨c, hc, he⟩ := List.mem_map.mp hm
  exact ⟨c, hc, congrArg (fun x => x.2.price) he⟩

/-- The fill of a side's cells, seen through the view. -/
theorem fill_entries (eligible : Price → Bool) (cs : List Cell) (q : Nat) :
    PriorityBook.fill eligible (cs.map Cell.entry) q =
      { gone := (fillCells eligible cs q).gone.map Cell.entry
        part := (fillCells eligible cs q).part.map (fun x => (x.1.entry, x.2))
        left := (fillCells eligible cs q).left.map Cell.entry
        rest := (fillCells eligible cs q).rest } :=
  GreedyFill.fill_map Cell.entry (fun _ => rfl) (fun _ => rfl) (fun _ _ => rfl) cs q

theorem fills_entries (eligible : Price → Bool) (cs : List Cell) (q : Nat) :
    (PriorityBook.fill eligible (cs.map Cell.entry) q).fills Entry.units =
      ((fillCells eligible cs q).fills Cell.units).map (fun x => (x.1.entry, x.2)) := by
  rw [fill_entries]
  simp [GreedyFill.Outcome.fills, Option.toList_map, Function.comp_def]

section Match

variable {b : OrderBook} (incoming : OrderId) (side : Side) (type : OrderType)
  (limitPrice : Option Price) (q : Nat)

/-- Both branches of `match_against_book` at once. -/
theorem matchAgainstBook_eq (b : OrderBook) :
    b.matchAgainstBook incoming side type limitPrice q =
      let r := matchLevels (crosses side type limitPrice) incoming (b.levels side.contra)
        ⟨q, b.restingOrders, b.restingOrderCount, []⟩
      (b.update side.contra r.1 r.2.restingOrders r.2.restingOrderCount b.nextAddress,
        r.2.remainingUnits, r.2.executions) := by
  cases side <;> rfl

/-- Matching takes liquidity as the priority book does and keeps the invariant. -/
theorem matchAgainstBook_spec (inv : b.Inv) :
    let r := b.matchAgainstBook incoming side type limitPrice q
    let t := b.view.take incoming side type limitPrice q
    r.1.view = t.book ∧ r.2.1 = t.rest ∧ r.2.2 = t.executions ∧ r.1.Inv ∧
      r.1.seenOrderIds = b.seenOrderIds := by
  have h := (inv_iff_side b side).mp inv
  obtain ⟨hcells, hafter, hvalid⟩ := matchLevels_eq (crosses side type limitPrice) incoming
    (b.levels side.contra) h.contra ⟨q, b.restingOrders, b.restingOrderCount, []⟩
  rw [matchAgainstBook_eq]
  generalize matchLevels (crosses side type limitPrice) incoming (b.levels side.contra)
    ⟨q, b.restingOrders, b.restingOrderCount, []⟩ = r at hcells hafter hvalid ⊢
  obtain ⟨ls, s⟩ := r
  dsimp only at hcells hafter hvalid ⊢
  have hplaces := fillCells_places side.contra (crosses side type limitPrice)
    (cells (b.levels side.contra)) q
  have hprices : ∀ d ∈ cells ls, ∃ c ∈ cells (b.levels side.contra), c.1 = d.1 :=
    fun d hd => fillCells_prices (hcells ▸ hd)
  refine ⟨?_, ?_, ?_, ?_, update_seen _ _ _ _ _ _⟩
  · rw [PriorityBook.take, view_orders, fill_entries, view_update, hcells]
  · rw [PriorityBook.take, view_orders, fill_entries, hafter]
    rfl
  · rw [PriorityBook.take, view_orders, fills_entries, hafter]
    simp [Matching.after]
  · refine inv_update _ _ _ _ _ _ hvalid (by simpa using h.own) ?_ ?_
    · have hindexed := h.indexed
      rw [hplaces, ← hcells] at hindexed
      have hperm := hindexed.perm List.perm_append_comm
      rw [List.append_assoc] at hperm
      have := hperm.eraseAll
      rw [hafter]
      simpa [sidePlaces, Function.comp_def, Matching.after] using this
    · rw [Side.contra_contra]
      intro d hd c hc
      obtain ⟨d', hd', he⟩ := hprices d hd
      have := h.uncrossed c hc d' hd'
      rw [he] at this
      cases side <;> exact this

end Match

/-! ## Insertion -/

theorem cells_pushBack {side : Side} {ls : Levels} (h : LevelsValid side ls) (price : Price)
    (n : Node) :
    cells (pushBack side.before price n ls) =
      (cells ls).orderedInsert (fun x y => side.before x.1 y.1) (price, n) :=
  h.sorted.entries_upsert price _ _ n rfl (fun _ => rfl)

theorem LevelsValid.pushBack {side : Side} {ls : Levels} (h : LevelsValid side ls) (price : Price)
    (n : Node) : LevelsValid side (pushBack side.before price n ls) where
  sorted := h.sorted.upsert _ _ _
  nonempty e he := by
    rcases OrderedMap.mem_upsert he with he | ⟨_, hv | ⟨v, _, hv⟩⟩
    · exact h.nonempty e he
    · simp [hv]
    · simp [hv]
  total e he := by
    rcases OrderedMap.mem_upsert he with he | ⟨_, hv | ⟨v, hm, hv⟩⟩
    · exact h.total e he
    · simp [hv, PriceLevel.empty, queueUnits, Node.units]
    · have := h.total _ hm
      simp only at this
      simp [hv, this, queueUnits, Node.units, UInt64.ofNat_add]

theorem insertRestingOrder_eq (b : OrderBook) (id : OrderId) (sequence : SequenceNumber)
    (side : Side) (price : Price) (quantity : Quantity) :
    b.insertRestingOrder id sequence side price quantity =
      b.update side (pushBack side.before price ⟨b.nextAddress, ⟨id, sequence, quantity⟩⟩
          (b.levels side))
        (emplace b.restingOrders id ⟨side, price, b.nextAddress⟩) (b.restingOrderCount + 1)
        (b.nextAddress + 1) := by
  cases side <;> rfl

/-- Insertion of an id that does not rest yet, at a price that crosses nothing. -/
theorem insertRestingOrder_spec {b : OrderBook} (inv : b.Inv) (id : OrderId)
    (sequence : SequenceNumber) (side : Side) (price : Price) (quantity : Quantity)
    (hid : ∀ s, id ∉ (b.view.orders s).map Entry.id) (hseen : id ∈ b.seenOrderIds)
    (hprice : ∀ d ∈ cells (b.levels side.contra), side.before d.1 price) :
    (b.insertRestingOrder id sequence side price quantity).Inv ∧
    (b.insertRestingOrder id sequence side price quantity).view =
      b.view.setOrders side
        (PriorityBook.enqueue side (price, ⟨id, sequence, quantity⟩) (b.view.orders side)) := by
  have h := (inv_iff_side b side).mp inv
  have hcells := cells_pushBack h.own price ⟨b.nextAddress, ⟨id, sequence, quantity⟩⟩
  rw [insertRestingOrder_eq]
  refine ⟨inv_update _ _ _ _ _ _ (h.own.pushBack _ _) h.contra ?_ ?_, ?_⟩
  · have hid' : id ∉ (sidePlaces side (cells (b.levels side)) ++
        sidePlaces side.contra (cells (b.levels side.contra))).map Prod.fst := by
      rw [List.map_append, sidePlaces_ids, sidePlaces_ids, ← view_orders, ← view_orders,
        List.mem_append]
      exact not_or.mpr ⟨hid side, hid side.contra⟩
    have hnew := h.indexed.insert (x := (id, ⟨side, price, b.nextAddress⟩)) hid' rfl hseen
    refine hnew.perm ?_
    rw [hcells]
    have := ((cells (b.levels side)).perm_orderedInsert (fun x y => side.before x.1 y.1)
      (price, ⟨b.nextAddress, ⟨id, sequence, quantity⟩⟩)).symm.map
        (fun c : Cell => (c.id, (⟨side, c.1, c.2.address⟩ : OrderLocation)))
    exact this.append_right _
  · rw [hcells]
    intro c hc d hd
    rcases (List.mem_orderedInsert _).mp hc with rfl | hc
    · exact hprice d hd
    · exact h.uncrossed c hc d hd
  · rw [view_update, hcells, view_orders, PriorityBook.enqueue]
    congr 1
    exact List.map_orderedInsert _ _ _ _ _ (fun _ _ => Iff.rfl) (fun _ _ => Iff.rfl)

/-! ## Lookup -/

theorem nodes_eq (ls : Levels) : nodes ls = (cells ls).map Prod.snd := by
  simp [nodes, cells, OrderedMap.entries, List.map_flatMap]

theorem addresses_eq (b : OrderBook) :
    (places b).map (fun x => x.2.it) = (nodes b.bids ++ nodes b.asks).map Node.address := by
  simp [places, sidePlaces, nodes_eq, Function.comp_def]

section Locate

variable {b : OrderBook} {id : OrderId} {loc : OrderLocation}

/-- An index entry resolves to the cell it was made for. -/
theorem Inv.locate (inv : b.Inv) (h : b.restingOrders.lookup id = some loc) :
    ∃ n : Node, (loc.price, n) ∈ cells (b.levels loc.side) ∧ n.address = loc.it ∧
      n.order.orderId = id ∧ b.deref loc.it = some n.order := by
  have hm := (inv.indexed.lookup id loc).mp h
  obtain ⟨n, hn, ha, hid⟩ : ∃ n : Node, (loc.price, n) ∈ cells (b.levels loc.side) ∧
      n.address = loc.it ∧ n.order.orderId = id := by
    rcases List.mem_append.mp hm with hm | hm
    · obtain ⟨⟨p, n⟩, hc, he⟩ := List.mem_map.mp hm
      cases he
      exact ⟨n, hc, rfl, rfl⟩
    · obtain ⟨⟨p, n⟩, hc, he⟩ := List.mem_map.mp hm
      cases he
      exact ⟨n, hc, rfl, rfl⟩
  refine ⟨n, hn, ha, hid, ?_⟩
  have hmem : n ∈ nodes b.bids ++ nodes b.asks := by
    simp only [nodes_eq, List.mem_append]
    cases hs : loc.side <;> rw [hs] at hn
    · exact Or.inl (List.mem_map_of_mem hn)
    · exact Or.inr (List.mem_map_of_mem hn)
  have hfind := (UniqueKeys.find_eq_some (addresses_eq b ▸ inv.indexed.addresses)).mpr ⟨hmem, ha⟩
  rw [deref, hfind]
  rfl

theorem Inv.uniqueIds (inv : b.Inv) : b.view.UniqueIds := by
  have := inv.indexed.ids
  simpa [PriorityBook.UniqueIds, places, sidePlaces, view, Function.comp_def] using this

/-- The index finds what the priority book finds. -/
theorem Inv.find_some (inv : b.Inv) (h : b.restingOrders.lookup id = some loc) :
    ∃ order, b.deref loc.it = some order ∧ b.view.find id = some (loc.side, (loc.price, order)) := by
  obtain ⟨n, hn, _, hid, hd⟩ := inv.locate h
  refine ⟨n.order, hd, inv.uniqueIds.find_eq_some.mpr ⟨?_, hid⟩⟩
  rw [view_orders]
  exact List.mem_map_of_mem hn

theorem Inv.find_none (inv : b.Inv) (h : b.restingOrders.lookup id = none) :
    b.view.find id = none := by
  rw [PriorityBook.find_eq_none]
  intro side hm
  rw [view_orders, List.map_map] at hm
  obtain ⟨c, hc, hid⟩ := List.mem_map.mp hm
  have hp : (id, ⟨side, c.1, c.2.address⟩) ∈ places b := by
    rw [(b.places_perm side).mem_iff, ← hid]
    exact List.mem_append_left _ (List.mem_map_of_mem hc)
  rw [← inv.indexed.lookup, h] at hp
  simp at hp

end Locate

end LowLatencyExchange.OrderBook
