import LowLatencyExchange.OrderBook.Aggregate
import Mathlib.Tactic

/-!
# What the self-check decides

`validate_invariants` is what the tests ask after every command. Its verdict is compared
here with the representation invariant on every book the containers can hold, not only on
reachable ones: it leaves out that queued ids are distinct and were seen, it asks for
more than the invariant where an aggregate has wrapped to zero, and otherwise the two agree.
-/
namespace LowLatencyExchange.OrderBook

/-- What the containers promise of any book, whatever was stored in it: a `std::map` is in
comparator order, the nodes of the lists are allocations of their own, and an iterator that
is kept points to a node. Reading any other iterator is undefined. -/
structure Linked (b : OrderBook) : Prop where
  bids : OrderedMap.Sorted Side.buy.before b.bids
  asks : OrderedMap.Sorted Side.sell.before b.asks
  addresses : (b.queued.map Node.address).Nodup
  fresh : ∀ n ∈ b.queued, n.address < b.nextAddress
  live : ∀ id loc, b.restingOrders.lookup id = some loc → ∃ n ∈ b.queued, n.address = loc.it

/-- The ids of the queues are as commands leave them: no id twice, and none unseen. -/
def IdsKept (b : OrderBook) : Prop :=
  (b.queued.map (fun n => n.order.orderId)).Nodup ∧ ∀ n ∈ b.queued, n.order.orderId ∈ b.seenOrderIds

section

variable {b : OrderBook}

theorem Linked.levels (linked : b.Linked) (side : Side) :
    OrderedMap.Sorted side.before (b.levels side) := by
  cases side
  · exact linked.bids
  · exact linked.asks

theorem mem_queued {n : Node} : n ∈ b.queued ↔ ∃ side price, (price, n) ∈ cells (b.levels side) := by
  rw [queued, nodes_eq, nodes_eq, List.mem_append, List.mem_map, List.mem_map]
  constructor
  · rintro (⟨⟨price, m⟩, hm, rfl⟩ | ⟨⟨price, m⟩, hm, rfl⟩)
    · exact ⟨.buy, price, hm⟩
    · exact ⟨.sell, price, hm⟩
  · rintro ⟨side, price, hm⟩
    cases side
    · exact Or.inl ⟨_, hm, rfl⟩
    · exact Or.inr ⟨_, hm, rfl⟩

theorem mem_places {id : OrderId} {loc : OrderLocation} :
    (id, loc) ∈ places b ↔
      ∃ n, (loc.price, n) ∈ cells (b.levels loc.side) ∧ n.order.orderId = id ∧ n.address = loc.it := by
  obtain ⟨side, price, it⟩ := loc
  rw [(b.places_perm side).mem_iff, List.mem_append, sidePlaces, sidePlaces, List.mem_map,
    List.mem_map]
  constructor
  · rintro (⟨⟨price', n⟩, hn, he⟩ | ⟨⟨price', n⟩, hn, he⟩)
    · cases he
      exact ⟨n, hn, rfl, rfl⟩
    · have hside : side.contra = side := congrArg (fun x => x.2.side) he
      cases side <;> cases hside
  · rintro ⟨n, hn, rfl, rfl⟩
    exact Or.inl ⟨(price, n), hn, rfl⟩

/-! ## One queued order -/

/-- On distinct ids and nodes the three tests on an index entry say that it is the place of
the order. -/
theorem indexedAt_iff (linked : b.Linked) (hids : (b.queued.map (fun n => n.order.orderId)).Nodup)
    {side : Side} {price : Price} {n : Node} (hn : n ∈ b.queued) :
    b.indexedAt side price n = true ↔
      b.restingOrders.lookup n.order.orderId = some ⟨side, price, n.address⟩ := by
  have hderef : ∀ m ∈ b.queued, b.deref m.address = some m.order := by
    intro m hm
    have hfind := (UniqueKeys.find_eq_some linked.addresses).mpr ⟨hm, rfl⟩
    rw [queued] at hfind
    rw [deref, hfind]
    rfl
  rw [indexedAt]
  cases hl : b.restingOrders.lookup n.order.orderId with
  | none => simp
  | some loc =>
    obtain ⟨m, hm, hit⟩ := linked.live _ _ hl
    obtain ⟨side', price', it⟩ := loc
    obtain rfl : m.address = it := hit
    have hsame : m.order.orderId = n.order.orderId ↔ m.address = n.address := by
      constructor
      · exact fun h => congrArg Node.address (List.inj_on_of_nodup_map hids hm hn h)
      · exact fun h =>
          congrArg (fun n => n.order.orderId) (List.inj_on_of_nodup_map linked.addresses hm hn h)
    simp [hderef m hm, hsame, and_assoc]

/-! ## One side, and the whole check -/

theorem validateLevels_iff (side : Side) (ls : Levels) :
    b.validateLevels side ls = true ↔
      ∀ e ∈ ls, e.2.orders ≠ [] ∧ e.2.totalUnits ≠ 0 ∧
        (∀ n ∈ e.2.orders, b.indexedAt side e.1 n = true) ∧
        e.2.totalUnits = UInt64.ofNat (queueUnits e.2.orders) := by
  rw [validateLevels, List.all_eq_true]
  apply forall₂_congr
  intro e _
  simp only [Bool.and_eq_true, Bool.not_eq_true', List.isEmpty_eq_false_iff, bne_iff_ne,
    List.all_eq_true, beq_iff_eq, countedUnits_eq, and_assoc, eq_comm (a := e.2.totalUnits)]

theorem length_places : (places b).length = b.queued.length := by
  simpa using congrArg List.length (queued_ids b).symm

/-- The parts of the check, with the two comparisons of the order count. -/
theorem validateInvariants_parts :
    b.validateInvariants = true ↔
      (∀ bid ask, b.bestBid = some bid → b.bestAsk = some ask → bid < ask) ∧
      (∀ side, b.validateLevels side (b.levels side) = true) ∧
      b.queued.length = b.restingOrderCount ∧ b.queued.length = b.restingOrders.keys.card := by
  have hcount : ((b.bids ++ b.asks).map (fun e => e.2.orders.length)).sum = b.queued.length := by
    rw [List.map_append, List.sum_append, sum_queue_lengths, sum_queue_lengths, ← length_places]
    simp [places, sidePlaces]
  have hsides : (∀ side, b.validateLevels side (b.levels side) = true) ↔
      b.validateLevels .buy b.bids = true ∧ b.validateLevels .sell b.asks = true := by
    constructor
    · exact fun h => ⟨h .buy, h .sell⟩
    · rintro ⟨hbids, hasks⟩ (_ | _)
      · exact hbids
      · exact hasks
  rw [validateInvariants, hcount, hsides]
  cases b.bestBid <;> cases b.bestAsk <;> simp [and_assoc]

/-! ## The verdict -/

/-- The first levels are the highest bid and the lowest ask, so comparing them compares all. -/
theorem Linked.uncrossed (linked : b.Linked)
    (h : ∀ bid ask, b.bestBid = some bid → b.bestAsk = some ask → bid < ask) :
    ∀ c ∈ cells b.bids, ∀ d ∈ cells b.asks, c.1 < d.1 := by
  have hfirst : ∀ side, ∀ c ∈ cells (b.levels side), ∃ e,
      (b.levels side).head? = some e ∧ ¬ side.before c.1 e.1 := by
    intro side c hc
    obtain ⟨level, hm, -⟩ := OrderedMap.mem_entries.mp hc
    have hsorted := linked.levels side
    cases hls : b.levels side with
    | nil => simp [hls] at hm
    | cons e ls =>
      rw [hls] at hm hsorted
      refine ⟨e, rfl, fun hbefore => ?_⟩
      rcases List.mem_cons.mp hm with rfl | hm
      · exact irrefl _ hbefore
      · have hlater := (List.pairwise_cons.mp hsorted).1 _ hm
        exact irrefl _ (IsTrans.trans _ _ _ hlater hbefore)
  intro c hc d hd
  obtain ⟨bid, hbid, hc⟩ := hfirst .buy c hc
  obtain ⟨ask, hask, hd⟩ := hfirst .sell d hd
  have hbest : bid.1 < ask.1 := by
    apply h
    · rw [bestBid, show b.bids = b.levels .buy from rfl, hbid]
      rfl
    · rw [bestAsk, show b.asks = b.levels .sell from rfl, hask]
      rfl
  exact lt_of_le_of_lt (not_lt.mp hc) (lt_of_lt_of_le hbest (not_lt.mp hd))

/-- A passed check leaves no room in the index for an order that is not queued: it has as
many entries as there are queued ids, and every queued id has one. -/
theorem indexed_of_validates (linked : b.Linked) (ids : b.IdsKept)
    (h : b.validateInvariants = true) :
    Indexed (places b) b.restingOrders b.restingOrderCount b.seenOrderIds b.nextAddress := by
  obtain ⟨-, hlevels, hcount, hcard⟩ := validateInvariants_parts.mp h
  have hplaced : ∀ id loc, (id, loc) ∈ places b → b.restingOrders.lookup id = some loc := by
    intro id loc hm
    obtain ⟨n, hn, rfl, hit⟩ := mem_places.mp hm
    obtain ⟨level, he, ho⟩ := OrderedMap.mem_entries.mp hn
    have hat := ((validateLevels_iff loc.side _).mp (hlevels loc.side) _ he).2.2.1 n ho
    have hlookup := (indexedAt_iff linked ids.1 (mem_queued.mpr ⟨_, _, hn⟩)).mp hat
    rwa [hit] at hlookup
  have hkeys : ((places b).map Prod.fst).toFinset = b.restingOrders.keys := by
    apply Finset.eq_of_subset_of_card_le
    · intro id hid
      obtain ⟨⟨_, loc⟩, hm, rfl⟩ := List.mem_map.mp (List.mem_toFinset.mp hid)
      exact Finmap.mem_keys.mpr (Finmap.mem_iff.mpr ⟨loc, hplaced _ loc hm⟩)
    · rw [← hcard, ← queued_ids, List.toFinset_card_of_nodup ids.1, List.length_map]
  refine ⟨queued_ids b ▸ ids.1, addresses_eq b ▸ linked.addresses, ?_, ?_, ?_, ?_⟩
  · rintro ⟨id, loc⟩ hm
    obtain ⟨n, hn, -, hit⟩ := mem_places.mp hm
    have := linked.fresh n (mem_queued.mpr ⟨_, _, hn⟩)
    rwa [hit] at this
  · intro id loc
    refine ⟨fun hl => ?_, hplaced id loc⟩
    have hmem : id ∈ b.restingOrders.keys := Finmap.mem_keys.mpr (Finmap.mem_iff.mpr ⟨loc, hl⟩)
    rw [← hkeys, List.mem_toFinset] at hmem
    obtain ⟨⟨_, loc'⟩, hm, rfl⟩ := List.mem_map.mp hmem
    have hl' := hplaced _ loc' hm
    rw [hl] at hl'
    cases hl'
    exact hm
  · rw [length_places, hcount]
  · rintro ⟨id, loc⟩ hm
    obtain ⟨n, hn, rfl, -⟩ := mem_places.mp hm
    exact ids.2 n (mem_queued.mpr ⟨_, _, hn⟩)

theorem Inv.linked (inv : b.Inv) : b.Linked where
  bids := inv.bids.sorted
  asks := inv.asks.sorted
  addresses := inv.wellFormed.nodes_once
  fresh n hn := by
    obtain ⟨side, price, hm⟩ := mem_queued.mp hn
    exact inv.indexed.fresh (n.order.orderId, ⟨side, price, n.address⟩)
      (mem_places.mpr ⟨n, hm, rfl, rfl⟩)
  live id loc hl := by
    obtain ⟨n, hm, ha, -⟩ := inv.locate hl
    exact ⟨n, mem_queued.mpr ⟨_, _, hm⟩, ha⟩

theorem Inv.idsKept (inv : b.Inv) : b.IdsKept :=
  ⟨inv.wellFormed.ids_once, inv.wellFormed.resting_seen⟩

theorem Inv.validates (inv : b.Inv) (h : ∀ side, ∀ e ∈ b.levels side, e.2.totalUnits ≠ 0) :
    b.validateInvariants = true := by
  refine validateInvariants_parts.mpr ⟨fun _ _ => inv.uncrossed_best, ?_, ?_, ?_⟩
  · intro side
    refine (validateLevels_iff side _).mpr fun e he => ⟨?_, h side e he, ?_, ?_⟩
    · exact (inv.levels side).nonempty e he
    · exact fun n hn => indexedAt_of_mem inv he hn
    · exact (inv.levels side).total e he
  · rw [← length_places, inv.indexed.count]
  · rw [← length_places, card_keys inv]

/-- On any book the containers can hold, the check with what it leaves out is the invariant
with what it adds. -/
theorem validateInvariants_iff (linked : b.Linked) :
    b.validateInvariants = true ∧ b.IdsKept ↔
      b.Inv ∧ ∀ side, ∀ e ∈ b.levels side, e.2.totalUnits ≠ 0 := by
  constructor
  · rintro ⟨h, ids⟩
    obtain ⟨hbest, hlevels, -, -⟩ := validateInvariants_parts.mp h
    have hlevel := fun side e he => (validateLevels_iff side _).mp (hlevels side) e he
    have hvalid : ∀ side, LevelsValid side (b.levels side) := fun side =>
      ⟨linked.levels side, fun e he => (hlevel side e he).1, fun e he => (hlevel side e he).2.2.2⟩
    exact ⟨⟨hvalid .buy, hvalid .sell, indexed_of_validates linked ids h, linked.uncrossed hbest⟩,
      fun side e he => (hlevel side e he).2.1⟩
  · rintro ⟨inv, h⟩
    exact ⟨inv.validates h, inv.idsKept⟩

/-- Two nodes with the id 1, and an entry of the id 2 that points to the second of them. -/
def doublyQueued : OrderBook :=
  let order : RestingOrder := ⟨OrderId.of 1, SequenceNumber.of 1, Quantity.of 5⟩
  let index : Index :=
    (Finmap.singleton (OrderId.of 1) ⟨.buy, Price.of 100, 0⟩).insert (OrderId.of 2)
      ⟨.buy, Price.of 100, 1⟩
  { bids := [(Price.of 100, ⟨10, [⟨0, order⟩, ⟨1, order⟩]⟩)], asks := [], restingOrders := index,
    seenOrderIds := {OrderId.of 1, OrderId.of 2}, restingOrderCount := 2, nextAddress := 2 }

/-- The entry nobody checks makes up for the id that is queued twice: the counts agree. -/
theorem doublyQueued_passes : doublyQueued.validateInvariants = true ∧ ¬ doublyQueued.Inv := by
  have hlive : ∀ id loc, doublyQueued.restingOrders.lookup id = some loc →
      ∃ n ∈ doublyQueued.queued, n.address = loc.it := by
    intro id loc hl
    have hid : id = OrderId.of 2 ∨ id = OrderId.of 1 := by
      have hmem : id ∈ doublyQueued.restingOrders := Finmap.mem_iff.mpr ⟨loc, hl⟩
      simpa [doublyQueued] using hmem
    have hentries : ∀ id ∈ [OrderId.of 2, OrderId.of 1],
        ∀ loc ∈ doublyQueued.restingOrders.lookup id, ∃ n ∈ doublyQueued.queued, n.address = loc.it := by
      decide +kernel
    exact hentries id (by simpa using hid) loc hl
  have linked : doublyQueued.Linked :=
    ⟨List.pairwise_singleton _ _, List.Pairwise.nil, by decide, by decide, hlive⟩
  have hpasses : doublyQueued.validateInvariants = true := by decide +kernel
  have hnonzero : ∀ side, ∀ e ∈ doublyQueued.levels side, e.2.totalUnits ≠ 0 := by
    rintro (_ | _) <;> decide
  refine ⟨hpasses, fun inv => ?_⟩
  obtain ⟨-, hids, -⟩ := (validateInvariants_iff linked).mpr ⟨inv, hnonzero⟩
  exact absurd hids (by decide)

end

/-- After any run the check fails exactly when the orders that rest at some price add up to a
multiple of `2 ^ 64`: an aggregate that wrapped to another value passes. -/
theorem run_validates_iff (commands : List Command) :
    (run commands).validateInvariants = false ↔
      ∃ side price, 0 < (PriorityBook.run commands).unitsOn side (fun e => e.1 = price) ∧
        2 ^ 64 ∣ (PriorityBook.run commands).unitsOn side (fun e => e.1 = price) := by
  have inv := run_inv commands
  have hzero : ∀ side, ∀ e ∈ (run commands).levels side,
      e.2.totalUnits = 0 ↔ 2 ^ 64 ∣ queueUnits e.2.orders := by
    intro side e he
    rw [(inv.levels side).total e he, ← UInt64.toNat_inj, UInt64.toNat_ofNat', Nat.dvd_iff_mod_eq_zero]
    rfl
  rw [← (run_view commands).1]
  constructor
  · intro hfails
    by_contra hnone
    push Not at hnone
    have hpasses : (run commands).validateInvariants = true := by
      refine inv.validates fun side e he htotal => ?_
      have hunits := unitsOn_view inv side e.1
      rw [(inv.levels side).sorted.find_of_mem he] at hunits
      have hpos := queueUnits_pos ((inv.levels side).nonempty e he)
      exact hnone side e.1 (hunits ▸ hpos) (hunits ▸ (hzero side e he).mp htotal)
    rw [hfails] at hpasses
    cases hpasses
  · rintro ⟨side, price, hpos, hdvd⟩
    rw [unitsOn_view inv] at hpos hdvd
    cases hf : OrderedMap.find price ((run commands).levels side) with
    | none => simp [hf] at hpos
    | some level =>
      rw [hf] at hdvd
      have he := OrderedMap.mem_of_find hf
      have htotal := (hzero side _ he).mpr hdvd
      rw [Bool.eq_false_iff]
      intro hpasses
      obtain ⟨-, hlevels, -⟩ := validateInvariants_parts.mp hpasses
      exact ((validateLevels_iff side _).mp (hlevels side) _ he).2.1 htotal

end LowLatencyExchange.OrderBook
