import LowLatencyExchange.OrderBook.Refinement
import Mathlib.Tactic

/-!
# Removal and in-place reduction

Both operations reach an order through its index entry. The entry resolves to one cell, no
other cell of the book has its address or its id, and its level is in the map; so erasing
the node is a filter of the side's cells, and writing through the iterator changes one
cell. The contra side is not touched by either.
-/
namespace LowLatencyExchange

@[simp] theorem Node.assign_address (it : Nat) (quantity : Quantity) (n : Node) :
    (n.assign it quantity).address = n.address := by
  unfold Node.assign
  split_ifs <;> rfl

@[simp] theorem Node.assign_orderId (it : Nat) (quantity : Quantity) (n : Node) :
    (n.assign it quantity).order.orderId = n.order.orderId := by
  unfold Node.assign
  split_ifs <;> rfl

theorem Node.assign_of_ne {it : Nat} {n : Node} (h : n.address ≠ it) (quantity : Quantity) :
    n.assign it quantity = n := if_neg h

namespace PriorityBook

/-- A removal filters the one side the id rests on. -/
theorem remove_eq {b : PriorityBook} {side : Side} {id : OrderId}
    (h : id ∉ (b.orders side.contra).map Entry.id) :
    b.remove id = b.setOrders side ((b.orders side).filter (fun e => e.id ≠ id)) := by
  have hkeep := UniqueKeys.filter_of_notMem h
  cases side
  · exact congrArg (fun es => (⟨_, es, b.seen⟩ : PriorityBook)) hkeep
  · exact congrArg (fun es => (⟨es, _, b.seen⟩ : PriorityBook)) hkeep

theorem map_setQuantity_of_notMem {es : List Entry} {id : OrderId} (h : id ∉ es.map Entry.id)
    (quantity : Quantity) : es.map (setQuantity id quantity) = es := by
  refine (List.map_congr_left fun e he => ?_).trans (List.map_id es)
  have hne : e.id ≠ id := fun he' => h (List.mem_map.mpr ⟨e, he, he'⟩)
  exact if_neg hne

/-- A reduction changes the one side the id rests on. -/
theorem reduce_eq {b : PriorityBook} {side : Side} {id : OrderId}
    (h : id ∉ (b.orders side.contra).map Entry.id) (quantity : Quantity) :
    b.reduce id quantity =
      b.setOrders side ((b.orders side).map (setQuantity id quantity)) := by
  have hkeep := map_setQuantity_of_notMem h quantity
  cases side
  · exact congrArg (fun es => (⟨_, es, b.seen⟩ : PriorityBook)) hkeep
  · exact congrArg (fun es => (⟨es, _, b.seen⟩ : PriorityBook)) hkeep

end PriorityBook

namespace OrderBook

/-- The units of a queue, with one node taken out. -/
theorem queueUnits_filter {orders : List Node} (h : (orders.map Node.address).Nodup) {n : Node}
    (hn : n ∈ orders) :
    queueUnits orders =
      n.units + queueUnits (orders.filter (fun m => m.address ≠ n.address)) := by
  have hperm := (UniqueKeys.perm_cons_filter h hn).map Node.units
  rw [queueUnits, GreedyFill.total, hperm.sum_eq]
  rfl

theorem map_assign_of_ne {it : Nat} {orders : List Node} (h : ∀ n ∈ orders, n.address ≠ it)
    (quantity : Quantity) : orders.map (Node.assign it quantity) = orders :=
  (List.map_congr_left fun n hn => Node.assign_of_ne (h n hn) quantity).trans (List.map_id orders)

/-- The units of a queue, with one node written to. -/
theorem queueUnits_assign {orders : List Node} (h : (orders.map Node.address).Nodup) {n : Node}
    (hn : n ∈ orders) (quantity : Quantity) :
    queueUnits (orders.map (Node.assign n.address quantity)) =
      quantity.units + queueUnits (orders.filter (fun m => m.address ≠ n.address)) := by
  have hperm := ((UniqueKeys.perm_cons_filter h hn).map (Node.assign n.address quantity)).map
    Node.units
  have hrest : ∀ m ∈ orders.filter (fun m => m.address ≠ n.address), m.address ≠ n.address :=
    fun m hm => by simpa using (List.mem_filter.mp hm).2
  rw [queueUnits, GreedyFill.total, hperm.sum_eq, List.map_cons, map_assign_of_ne hrest,
    List.map_cons, List.sum_cons, Node.assign, if_pos rfl]
  rfl

theorem cells_assign (it : Nat) (quantity : Quantity) (ls : Levels) :
    cells (assign it quantity ls) = (cells ls).map (fun c => (c.1, c.2.assign it quantity)) := by
  simp [cells, OrderedMap.entries, assign, List.flatMap_map, List.map_flatMap, Function.comp_def]

/-- Updates that leave the queues alone leave the cells alone. -/
theorem cells_modify {f : PriceLevel → PriceLevel} (hf : ∀ level, (f level).orders = level.orders)
    (price : Price) (ls : Levels) : cells (OrderedMap.modify price f ls) = cells ls := by
  rw [cells, OrderedMap.entries, OrderedMap.modify, List.flatMap_map]
  refine List.flatMap_congr fun e _ => ?_
  split_ifs
  · rw [hf]
  · rfl

/-! ## The cell an index entry points to -/

/-- `n` is the only cell of its address on a side, and its level is in the map. -/
structure Located (ls : Levels) (price : Price) (n : Node) : Prop where
  mem : (price, n) ∈ cells ls
  addresses : ((cells ls).map (fun c => c.2.address)).Nodup

section Located

variable {side : Side} {ls : Levels} {price : Price} {n : Node}

theorem Located.eq_of_address (h : Located ls price n) {c : Cell} (hc : c ∈ cells ls)
    (he : c.2.address = n.address) : c = (price, n) :=
  List.inj_on_of_nodup_map h.addresses hc h.mem he

theorem Located.exists_level (h : Located ls price n) :
    ∃ level, (price, level) ∈ ls ∧ n ∈ level.orders := OrderedMap.mem_entries.mp h.mem

theorem Located.level_addresses (h : Located ls price n) {level : PriceLevel}
    (hl : (price, level) ∈ ls) : (level.orders.map Node.address).Nodup := by
  have hsub : ((level.orders.map (Prod.mk price)).map (fun c : Cell => c.2.address)).Sublist
      ((cells ls).map (fun c => c.2.address)) := by
    refine List.Sublist.map _ ?_
    obtain ⟨l₁, l₂, rfl⟩ := List.append_of_mem hl
    simp only [cells, OrderedMap.entries, List.flatMap_append, List.flatMap_cons]
    exact (List.sublist_append_left _ _).trans (List.sublist_append_right _ _)
  rw [List.map_map] at hsub
  exact h.addresses.sublist hsub

/-- Cells at other prices have other addresses. -/
theorem Located.address_ne (h : Located ls price n) {e : Price × PriceLevel} (he : e ∈ ls)
    (hp : e.1 ≠ price) {m : Node} (hm : m ∈ e.2.orders) : m.address ≠ n.address := by
  intro ha
  have hc : (e.1, m) ∈ cells ls := OrderedMap.mem_entries.mpr ⟨e.2, he, hm⟩
  exact hp (congrArg Prod.fst (h.eq_of_address hc ha))

/-- Erasing the node filters it out of the side's cells and keeps the map valid. -/
theorem Located.eraseFrom (h : Located ls price n) (valid : LevelsValid side ls) :
    cells (eraseFrom price n.address n.units ls) =
      (cells ls).filter (fun c => c.2.address ≠ n.address) ∧
    LevelsValid side (eraseFrom price n.address n.units ls) := by
  obtain ⟨level, hl, hn⟩ := h.exists_level
  have hfind := valid.sorted.find_of_mem hl
  have honly : ∀ v, (price, v) ∈ ls → v = level := by
    intro v hv
    have := valid.sorted.find_of_mem hv
    rw [hfind] at this
    exact (Option.some.inj this).symm
  have hother : ∀ e ∈ ls, e.1 ≠ price → ∀ m ∈ e.2.orders, decide (m.address ≠ n.address) := by
    intro e he hp m hm
    exact decide_eq_true (h.address_ne he hp hm)
  simp only [OrderBook.eraseFrom, hfind]
  split_ifs with hempty
  · refine ⟨OrderedMap.entries_erase (fun c : Cell => c.2.address ≠ n.address) price ls ?_ hother, ?_⟩
    · intro v hv
      rw [honly v hv]
      exact hempty
    · exact ⟨valid.sorted.erase price, fun e he => valid.nonempty e (List.mem_of_mem_filter he),
        fun e he => valid.total e (List.mem_of_mem_filter he)⟩
  · refine ⟨OrderedMap.entries_modify (fun c : Cell => c.2.address ≠ n.address) price _ ls ?_ hother, ?_⟩
    · intro v hv
      rw [honly v hv]
    · refine ⟨valid.sorted.modify price _, ?_, ?_⟩
      · intro e he
        rcases OrderedMap.mem_modify he with ⟨he, _⟩ | ⟨_, v, _, hv⟩
        · exact valid.nonempty e he
        · rw [hv]
          exact hempty
      · intro e he
        rcases OrderedMap.mem_modify he with ⟨he, _⟩ | ⟨_, v, hm, hv⟩
        · exact valid.total e he
        · have htotal : v.totalUnits = UInt64.ofNat (queueUnits v.orders) := valid.total _ hm
          have hunits := queueUnits_filter (h.level_addresses hl) hn
          rw [hv, htotal, honly v hm, hunits, ← UInt64.ofNat_sub (Nat.le_add_right _ _),
            Nat.add_sub_cancel_left]

/-- Reducing the level total and writing through the iterator changes one cell. -/
theorem Located.assign (h : Located ls price n) (valid : LevelsValid side ls)
    {quantity : Quantity} (hq : quantity.units ≤ n.units) :
    let ls' := OrderBook.assign n.address quantity (OrderedMap.upsert side.before price .empty
      (fun level => { level with
        totalUnits := level.totalUnits - UInt64.ofNat (n.units - quantity.units) }) ls)
    cells ls' = (cells ls).map (fun c => (c.1, c.2.assign n.address quantity)) ∧
      LevelsValid side ls' := by
  obtain ⟨level, hl, hn⟩ := h.exists_level
  rw [valid.sorted.upsert_eq_modify ⟨level, hl⟩]
  refine ⟨?_, ?_⟩
  · rw [cells_assign, cells_modify]
    intro _
    rfl
  · refine ⟨List.pairwise_map.mpr (valid.sorted.modify price _), ?_, ?_⟩
    · intro e he
      obtain ⟨x, hx, rfl⟩ := List.mem_map.mp he
      have hne : x.2.orders ≠ [] := by
        rcases OrderedMap.mem_modify hx with ⟨hx, _⟩ | ⟨_, v, hv, hx⟩
        · exact valid.nonempty x hx
        · rw [hx]
          exact valid.nonempty _ hv
      simpa using hne
    · intro e he
      obtain ⟨x, hx, rfl⟩ := List.mem_map.mp he
      rcases OrderedMap.mem_modify hx with ⟨hx, hp⟩ | ⟨_, v, hv, hx⟩
      · dsimp only
        rw [map_assign_of_ne (fun m hm => h.address_ne hx hp hm)]
        exact valid.total x hx
      · have hlevel : v = level := by
          have := valid.sorted.find_of_mem hv
          rw [valid.sorted.find_of_mem hl] at this
          exact (Option.some.inj this).symm
        have htotal : v.totalUnits = UInt64.ofNat (queueUnits v.orders) := valid.total _ hv
        have hnew := queueUnits_assign (h.level_addresses hl) hn quantity
        have hold := queueUnits_filter (h.level_addresses hl) hn
        have hsub : queueUnits (level.orders.map (Node.assign n.address quantity)) =
            queueUnits level.orders - (n.units - quantity.units) := by omega
        have hle : n.units - quantity.units ≤ queueUnits level.orders := by omega
        dsimp only
        rw [hx, htotal, hlevel, hsub]
        exact (UInt64.ofNat_sub hle).symm

end Located

/-! ## The operations -/

section Operations

variable {b : OrderBook} {id : OrderId} {loc : OrderLocation}

/-- The one cell behind an index entry, as the operations need it: by address on its own
side, by id on both. -/
structure Target (b : OrderBook) (id : OrderId) (loc : OrderLocation) (n : Node) : Prop where
  located : Located (b.levels loc.side) loc.price n
  address : n.address = loc.it
  orderId : n.order.orderId = id
  deref : b.deref loc.it = some n.order
  unique : ∀ c ∈ cells (b.levels loc.side), c.id = id → c = (loc.price, n)
  contra : ∀ c ∈ cells (b.levels loc.side.contra), c.2.address ≠ loc.it ∧ c.id ≠ id

theorem Inv.target (inv : b.Inv) (h : b.restingOrders.lookup id = some loc) :
    ∃ n, b.Target id loc n := by
  obtain ⟨n, hn, ha, hid, hd⟩ := inv.locate h
  have hside := (inv_iff_side b loc.side).mp inv
  have haddresses := hside.indexed.addresses
  have hids := hside.indexed.ids
  simp only [List.map_append, sidePlaces, List.map_map] at haddresses hids
  refine ⟨n, ⟨hn, haddresses.of_append_left⟩, ha, hid, hd, ?_, ?_⟩
  · intro c hc he
    exact List.inj_on_of_nodup_map hids.of_append_left hc hn (he.trans hid.symm)
  · intro c hc
    refine ⟨fun he => ?_, fun he => ?_⟩
    · exact List.disjoint_of_nodup_append haddresses (List.mem_map_of_mem hn)
        (List.mem_map.mpr ⟨c, hc, he.trans ha.symm⟩)
    · exact List.disjoint_of_nodup_append hids (List.mem_map_of_mem hn)
        (List.mem_map.mpr ⟨c, hc, he.trans hid.symm⟩)

theorem Target.address_iff {n : Node} (t : b.Target id loc n) {c : Cell}
    (hc : c ∈ cells (b.levels loc.side)) : c.2.address = loc.it ↔ c.id = id := by
  constructor
  · intro he
    rw [t.located.eq_of_address hc (he.trans t.address.symm)]
    exact t.orderId
  · intro he
    rw [t.unique c hc he]
    exact t.address

theorem Target.contra_ids {n : Node} (t : b.Target id loc n) :
    id ∉ (b.view.orders loc.side.contra).map Entry.id := by
  rw [view_orders, List.map_map]
  intro hm
  obtain ⟨c, hc, he⟩ := List.mem_map.mp hm
  exact (t.contra c hc).2 he

theorem removeRestingOrder_eq {order : RestingOrder} (h : b.deref loc.it = some order)
    (id : OrderId) :
    b.removeRestingOrder loc id =
      (b.update loc.side (eraseFrom loc.price loc.it order.units (b.levels loc.side))
        (b.restingOrders.erase id) (b.restingOrderCount - 1) b.nextAddress,
        some order.remainingQuantity) := by
  obtain ⟨side, price, it⟩ := loc
  simp only [removeRestingOrder, h]
  cases side <;> rfl

/-- Removing an indexed order takes exactly its cell out. -/
theorem removeRestingOrder_spec (inv : b.Inv) (h : b.restingOrders.lookup id = some loc) :
    (b.removeRestingOrder loc id).1.Inv ∧
    (b.removeRestingOrder loc id).1.view = b.view.remove id ∧
    (b.removeRestingOrder loc id).1.seenOrderIds = b.seenOrderIds ∧
    (b.removeRestingOrder loc id).2 = (b.deref loc.it).map RestingOrder.remainingQuantity := by
  obtain ⟨n, t⟩ := inv.target h
  have hside := (inv_iff_side b loc.side).mp inv
  obtain ⟨hcells, hvalid⟩ := t.located.eraseFrom hside.own
  rw [t.address] at hcells hvalid
  rw [removeRestingOrder_eq t.deref, t.deref]
  have hperm : (sidePlaces loc.side (cells (b.levels loc.side))).Perm
      ((id, loc) :: sidePlaces loc.side
        ((cells (b.levels loc.side)).filter (fun c => c.2.address ≠ loc.it))) := by
    have := (UniqueKeys.perm_cons_filter t.located.addresses t.located.mem).map
      (fun c : Cell => (c.id, (⟨loc.side, c.1, c.2.address⟩ : OrderLocation)))
    simpa [sidePlaces, Cell.id, t.address, t.orderId] using this
  refine ⟨inv_update _ _ _ _ _ _ hvalid hside.contra ?_ ?_, ?_, update_seen _ _ _ _ _ _, rfl⟩
  · rw [Node.units] at hcells
    rw [hcells]
    exact (hside.indexed.perm (hperm.append_right _)).erase
  · intro c hc d hd
    rw [Node.units] at hcells
    rw [hcells] at hc
    exact hside.uncrossed c (List.mem_of_mem_filter hc) d hd
  · rw [Node.units] at hcells
    rw [view_update, PriorityBook.remove_eq t.contra_ids, view_orders, hcells, List.filter_map]
    congr 2
    refine List.filter_congr fun c hc => ?_
    exact decide_eq_decide.mpr (not_congr (t.address_iff hc))

theorem reduceInPlace_eq {n : Node} (t : b.Target id loc n) (d : Nat) (quantity : Quantity) :
    b.reduceInPlace loc d quantity =
      b.update loc.side
        (assign loc.it quantity (OrderedMap.upsert loc.side.before loc.price .empty
          (fun level => { level with totalUnits := level.totalUnits - UInt64.ofNat d })
          (b.levels loc.side)))
        b.restingOrders b.restingOrderCount b.nextAddress := by
  have hcontra : assign loc.it quantity (b.levels loc.side.contra) = b.levels loc.side.contra := by
    refine (List.map_congr_left fun e he => ?_).trans (List.map_id _)
    have hne : ∀ m ∈ e.2.orders, m.address ≠ loc.it := fun m hm =>
      (t.contra (e.1, m) (OrderedMap.mem_entries.mpr ⟨e.2, he, hm⟩)).1
    rw [map_assign_of_ne hne]
    rfl
  obtain ⟨side, price, it⟩ := loc
  cases side
  · simp only [levels, Side.contra] at hcontra
    simp only [reduceInPlace, update, levels, hcontra]
  · simp only [levels, Side.contra] at hcontra
    simp only [reduceInPlace, update, levels, hcontra]

/-- Reducing an indexed order changes exactly its remaining quantity. -/
theorem reduceInPlace_spec (inv : b.Inv) (h : b.restingOrders.lookup id = some loc)
    {order : RestingOrder} (hd : b.deref loc.it = some order) {quantity : Quantity}
    (hq : quantity.units ≤ order.units) :
    (b.reduceInPlace loc (order.units - quantity.units) quantity).Inv ∧
    (b.reduceInPlace loc (order.units - quantity.units) quantity).view =
      b.view.reduce id quantity ∧
    (b.reduceInPlace loc (order.units - quantity.units) quantity).seenOrderIds =
      b.seenOrderIds := by
  obtain ⟨n, t⟩ := inv.target h
  obtain rfl : n.order = order := Option.some.inj (t.deref.symm.trans hd)
  have hside := (inv_iff_side b loc.side).mp inv
  obtain ⟨hcells, hvalid⟩ := t.located.assign hside.own hq
  rw [t.address, Node.units] at hcells hvalid
  rw [reduceInPlace_eq t]
  refine ⟨inv_update _ _ _ _ _ _ hvalid hside.contra ?_ ?_, ?_, update_seen _ _ _ _ _ _⟩
  · rw [hcells]
    have hplaces : sidePlaces loc.side ((cells (b.levels loc.side)).map
        (fun c => (c.1, c.2.assign loc.it quantity))) =
          sidePlaces loc.side (cells (b.levels loc.side)) := by
      simp [sidePlaces, Function.comp_def, Cell.id]
    rw [hplaces]
    exact hside.indexed
  · rw [hcells]
    intro c hc d hd
    obtain ⟨c', hc', rfl⟩ := List.mem_map.mp hc
    exact hside.uncrossed c' hc' d hd
  · rw [view_update, PriorityBook.reduce_eq t.contra_ids, view_orders, hcells, List.map_map,
      List.map_map]
    congr 1
    refine List.map_congr_left fun c hc => ?_
    have hiff := t.address_iff hc
    by_cases hit : c.2.address = loc.it
    · have hid : Entry.id (c.1, c.2.order) = id := hiff.mp hit
      simp [Cell.entry, Node.assign, hit, PriorityBook.setQuantity, hid]
    · have hid : ¬ Entry.id (c.1, c.2.order) = id := fun he => hit (hiff.mpr he)
      simp [Cell.entry, Node.assign, hit, PriorityBook.setQuantity, hid]

end Operations

end OrderBook

end LowLatencyExchange
