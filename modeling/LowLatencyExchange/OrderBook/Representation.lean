import LowLatencyExchange.OrderBook.Queries
import LowLatencyExchange.OrderBook.Simulation
import Mathlib.Tactic

/-!
# The private state after any run

`WellFormed` reads the representation invariant off the private fields themselves: maps,
queues, index, counter and aggregates, without the flattened lists the proofs use. Every
book a command sequence can produce satisfies it.
-/
namespace LowLatencyExchange.OrderBook

/-- All queued orders, bids first. -/
def queued (b : OrderBook) : List Node := nodes b.bids ++ nodes b.asks

structure WellFormed (b : OrderBook) : Prop where
  bids_decrease : b.bids.Pairwise (fun x y => y.1 < x.1)
  asks_increase : b.asks.Pairwise (fun x y => x.1 < y.1)
  queue_nonempty : ∀ side, ∀ e ∈ b.levels side, e.2.orders ≠ []
  remaining_pos : ∀ n ∈ b.queued, 1 ≤ n.order.remainingQuantity.units
  /-- Each id is queued once, and each node is linked once. -/
  ids_once : (b.queued.map (fun n => n.order.orderId)).Nodup
  nodes_once : (b.queued.map Node.address).Nodup
  index_keys : ∀ id, id ∈ b.restingOrders ↔ ∃ n ∈ b.queued, n.order.orderId = id
  /-- The level of an index entry is found, and its iterator points to the order in it. -/
  index_resolves : ∀ id loc, b.restingOrders.lookup id = some loc →
    ∃ level n, OrderedMap.find loc.price (b.levels loc.side) = some level ∧ n ∈ level.orders ∧
      n.order.orderId = id ∧ n.address = loc.it ∧ b.deref loc.it = some n.order
  count_queued : b.restingOrderCount = b.queued.length
  count_index : b.restingOrderCount = b.restingOrders.keys.card
  resting_seen : ∀ n ∈ b.queued, n.order.orderId ∈ b.seenOrderIds
  totals : ∀ side, ∀ e ∈ b.levels side,
    e.2.totalUnits.toNat = (e.2.orders.map (fun n => n.order.remainingQuantity.units)).sum % 2 ^ 64
  uncrossed : ∀ bid ask, b.bestBid = some bid → b.bestAsk = some ask → bid < ask

section

variable {b : OrderBook}

theorem queued_ids (b : OrderBook) :
    b.queued.map (fun n => n.order.orderId) = (places b).map Prod.fst := by
  simp [queued, nodes_eq, places, sidePlaces, Function.comp_def, Cell.id]

theorem mem_keys_iff (inv : b.Inv) (id : OrderId) :
    id ∈ b.restingOrders ↔ id ∈ (places b).map Prod.fst := by
  rw [Finmap.mem_iff]
  constructor
  · rintro ⟨loc, hl⟩
    exact List.mem_map.mpr ⟨(id, loc), (inv.indexed.lookup id loc).mp hl, rfl⟩
  · intro hm
    obtain ⟨⟨_, loc⟩, hx, rfl⟩ := List.mem_map.mp hm
    exact ⟨loc, (inv.indexed.lookup _ loc).mpr hx⟩

theorem card_keys (inv : b.Inv) : b.restingOrders.keys.card = (places b).length := by
  have hkeys : b.restingOrders.keys = ((places b).map Prod.fst).toFinset := by
    ext id
    rw [Finmap.mem_keys, List.mem_toFinset]
    exact mem_keys_iff inv id
  rw [hkeys, List.toFinset_card_of_nodup inv.indexed.ids, List.length_map]

/-- The first level of a valid side holds an order at its price. -/
theorem exists_cell_of_head {side : Side} {ls : Levels} (h : LevelsValid side ls) {price : Price}
    (hp : ls.head?.map Prod.fst = some price) : ∃ n, (price, n) ∈ cells ls := by
  cases ls with
  | nil => simp at hp
  | cons e ls =>
    obtain rfl : e.1 = price := by simpa using hp
    obtain ⟨n, orders, ho⟩ := List.exists_cons_of_ne_nil (h.nonempty e List.mem_cons_self)
    exact ⟨n, OrderedMap.mem_entries.mpr ⟨e.2, List.mem_cons_self, by simp [ho]⟩⟩

theorem Inv.uncrossed_best (inv : b.Inv) {bid ask : Price} (hb : b.bestBid = some bid)
    (ha : b.bestAsk = some ask) : bid < ask := by
  obtain ⟨n, hn⟩ := exists_cell_of_head inv.bids hb
  obtain ⟨m, hm⟩ := exists_cell_of_head inv.asks ha
  exact inv.uncrossed _ hn _ hm

theorem Inv.wellFormed (inv : b.Inv) : b.WellFormed where
  bids_decrease := inv.bids.sorted
  asks_increase := inv.asks.sorted
  queue_nonempty side := (inv.levels side).nonempty
  remaining_pos n _ := n.order.remainingQuantity.pos
  ids_once := queued_ids b ▸ inv.indexed.ids
  nodes_once := addresses_eq b ▸ inv.indexed.addresses
  index_keys id := by
    rw [mem_keys_iff inv, ← queued_ids, List.mem_map]
  index_resolves id loc h := by
    obtain ⟨n, hn, ha, hid, hd⟩ := inv.locate h
    obtain ⟨level, hl, hm⟩ := OrderedMap.mem_entries.mp hn
    exact ⟨level, n, (inv.levels loc.side).sorted.find_of_mem hl, hm, hid, ha, hd⟩
  count_queued := by
    have := congrArg List.length (queued_ids b)
    simp only [List.length_map] at this
    rw [inv.indexed.count, this]
  count_index := inv.indexed.count.trans (card_keys inv).symm
  resting_seen n hn := by
    have hm : n.order.orderId ∈ (places b).map Prod.fst :=
      queued_ids b ▸ List.mem_map_of_mem hn
    obtain ⟨x, hx, he⟩ := List.mem_map.mp hm
    exact he ▸ inv.indexed.seen x hx
  totals side e he := by
    rw [(inv.levels side).total e he, UInt64.toNat_ofNat']
    rfl
  uncrossed _ _ := inv.uncrossed_best

end

/-- Every command sequence leaves a well-formed book. -/
theorem run_wellFormed (commands : List Command) : (run commands).WellFormed :=
  (run_inv commands).wellFormed

end LowLatencyExchange.OrderBook
