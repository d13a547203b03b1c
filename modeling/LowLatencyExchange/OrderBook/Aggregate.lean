import LowLatencyExchange.OrderBook.PriorityLaws
import LowLatencyExchange.OrderBook.Representation
import Mathlib.Tactic

/-!
# When level aggregates are exact

`total_units` is added to without a check, so it equals the units of its level only while
they fit 64 bits. `Room` is the exact condition on a command and the book it meets: the
units that rest at the order's price, with what the command leaves there, stay below
`2 ^ 64`. A run has exact aggregates throughout when every command had room, and only then.
-/
namespace LowLatencyExchange

namespace PriorityBook

/-- Every level holds less than `2 ^ 64` units. -/
def Bounded (b : PriorityBook) : Prop := ∀ side price, b.unitsOn side (fun e => e.1 = price) < 2 ^ 64

/-- There is room at the price where the command leaves units. A replace that gives up its
place first vacates the units the order had. -/
def Room (b : PriorityBook) : Command → Prop
  | .submit order => validate order = none → order.orderId ∉ b.seen →
      ∀ price ∈ order.limitPrice,
        b.unitsOn order.side (fun e => e.1 = price) +
          (order.quantity.units -
            b.unitsOn order.side.contra (fun e => OrderBook.crosses order.side .limit (some price) e.1)) < 2 ^ 64
  | .cancel _ => True
  | .replace command => ∀ side e, b.find command.orderId = some (side, e) →
      ¬ (command.newPrice = e.1 ∧ command.newQuantity.units ≤ e.units) →
        b.unitsOn side (fun e => e.1 = command.newPrice) -
            (if e.1 = command.newPrice then e.units else 0) +
          (command.newQuantity.units -
            b.unitsOn side.contra (fun x => OrderBook.crosses side .limit (some command.newPrice) x.1)) < 2 ^ 64

section Bounded

variable {b : PriorityBook}

theorem Bounded.of_le {b' : PriorityBook} (h : b.Bounded)
    (hle : ∀ side price, b'.unitsOn side (fun e => e.1 = price) ≤
      b.unitsOn side (fun e => e.1 = price)) : b'.Bounded :=
  fun side price => lt_of_le_of_lt (hle side price) (h side price)

theorem Bounded.take (h : b.Bounded) (incoming : OrderId) (side : Side) (type : OrderType)
    (limitPrice : Option Price) (q : Nat) :
    (b.take incoming side type limitPrice q).book.Bounded := by
  refine h.of_le fun s price => ?_
  rcases Side.eq_or_eq_contra s side with rfl | rfl
  · rw [unitsOn_take_own]
  · have := b.unitsOn_take_contra side (fun e => e.1 = price) (fun _ _ => rfl) incoming type
      limitPrice q
    omega

theorem Bounded.markSeen (h : b.Bounded) (id : OrderId) : (b.markSeen id).Bounded :=
  h.of_le fun side _ => (unitsOn_markSeen b side _ id).le

theorem Bounded.remove (h : b.Bounded) (id : OrderId) : (b.remove id).Bounded := by
  refine h.of_le fun side price => ?_
  rw [unitsOn, orders_remove, unitsOn]
  exact ((List.filter_sublist.filter _).map _).sum_le_sum fun _ _ => Nat.zero_le _

/-- Posting keeps levels bounded exactly when there is room at its price. -/
theorem Bounded.post_iff (h : b.Bounded) (id : OrderId) (sequence : SequenceNumber)
    (side : Side) (price : Price) {q : Nat} (hq : q < 2 ^ 64) :
    (b.post id sequence side price q).Bounded ↔ b.unitsOn side (fun e => e.1 = price) + q < 2 ^ 64 := by
  rw [post]
  rcases Nat.eq_zero_or_pos q with rfl | hpos
  · have : Quantity.fromUnits 0 = none := by simp [Quantity.fromUnits]
    rw [this]
    exact ⟨fun _ => h side price, fun _ => h⟩
  · have : Quantity.fromUnits q = some ⟨q, hpos, hq⟩ := dif_pos ⟨hpos, hq⟩
    rw [this]
    constructor
    · intro hb
      have := hb side price
      rw [unitsOn_enqueue] at this
      simpa [Entry.units, RestingOrder.units] using this
    · intro hroom s p
      rcases Side.eq_or_eq_contra s side with rfl | rfl
      · rw [unitsOn_enqueue]
        by_cases hp : price = p
        · subst hp
          simpa [Entry.units, RestingOrder.units] using hroom
        · have := h s p
          simpa [hp] using this
      · dsimp only
        rw [unitsOn_contra_setOrders]
        exact h _ p

theorem Bounded.reduce (h : b.Bounded) (valid : b.Valid) {id : OrderId} {side : Side} {e : Entry}
    (hf : b.find id = some (side, e)) {quantity : Quantity} (hle : quantity.units ≤ e.units) :
    (b.reduce id quantity).Bounded := by
  refine h.of_le fun s price => ?_
  rcases Side.eq_or_eq_contra s side with rfl | rfl
  · rw [valid.unitsOn_reduce hf, valid.unitsOn_remove hf, setQuantity_fst]
    split_ifs <;> omega
  · rw [valid.unitsOn_reduce_contra hf]

/-- One step keeps the levels bounded exactly when its command has room. -/
theorem step_bounded_iff (valid : b.Valid) (h : b.Bounded) (c : Command) :
    (b.step c).1.Bounded ↔ b.Room c := by
  have htrans := b.step_transition c
  generalize b.step c = r at htrans
  cases htrans with
  | invalid order hv => exact iff_of_true h fun hv' => absurd hv' hv
  | duplicate order hv hs => exact iff_of_true h fun _ hs' => absurd hs hs'
  | limit order price ht hp hs t ht' =>
    have hv : validate order = none := validate_limit ht hp
    have htaken : t.book.Bounded := ht' ▸ (h.markSeen order.orderId).take _ _ _ _ _
    have hrest := (valid.markSeen order.orderId).take_rest order.orderId order.side .limit
      (some price) order.quantity.units
    rw [← ht', unitsOn_markSeen] at hrest
    have hown : t.book.unitsOn order.side (fun e => e.1 = price) =
        b.unitsOn order.side (fun e => e.1 = price) := by
      rw [ht', unitsOn_take_own, unitsOn_markSeen]
    have hlt := order.quantity.lt
    rw [htaken.post_iff _ _ _ _ (by omega), hown, hrest]
    simp [Room, hv, hs, hp]
  | market order ht hp hs t ht' =>
    have htaken : t.book.Bounded := ht' ▸ (h.markSeen order.orderId).take _ _ _ _ _
    exact iff_of_true htaken (by simp [Room, hp])
  | cancelMissing command hf => exact iff_of_true h trivial
  | cancelled command side e hf => exact iff_of_true (h.remove command.orderId) trivial
  | replaceMissing command hf => exact iff_of_true h (by simp [Room, hf])
  | reduced command side e hf hc =>
    refine iff_of_true (h.reduce valid hf hc.2) ?_
    intro s x hfx hnc
    rw [hf] at hfx
    cases hfx
    exact absurd hc hnc
  | requeued command side e hf hc t ht =>
    have htaken : t.book.Bounded := ht ▸ (h.remove command.orderId).take _ _ _ _ _
    have hrest := (valid.remove command.orderId).take_rest command.orderId side .limit
      (some command.newPrice) command.newQuantity.units
    rw [← ht, valid.unitsOn_remove_contra hf] at hrest
    have hown : t.book.unitsOn side (fun e => e.1 = command.newPrice) =
        b.unitsOn side (fun e => e.1 = command.newPrice) -
          (if e.1 = command.newPrice then e.units else 0) := by
      rw [ht, unitsOn_take_own, valid.unitsOn_remove hf]
      simp
    have hlt := command.newQuantity.lt
    rw [htaken.post_iff _ _ _ _ (by omega), hown, hrest]
    constructor
    · intro hroom s x hfx _
      rw [hf] at hfx
      cases hfx
      exact hroom
    · exact fun hroom => hroom side e hf hc

end Bounded

end PriorityBook

namespace OrderBook

/-- The quote's optional holds the exact units that rest at its price. -/
def QuoteExact (b : OrderBook) (side : Side) (quote : LevelQuote) : Prop :=
  ∃ level quantity, (quote.price, level) ∈ b.levels side ∧ quote.quantity = some quantity ∧
    quantity.units = queueUnits level.orders

structure ExactAggregates (b : OrderBook) : Prop where
  totals : ∀ side, ∀ e ∈ b.levels side,
    e.2.totalUnits.toNat = queueUnits e.2.orders ∧ e.2.totalUnits ≠ 0
  topBid : ∀ quote ∈ b.topBid, b.QuoteExact .buy quote
  topAsk : ∀ quote ∈ b.topAsk, b.QuoteExact .sell quote
  bidDepth : ∀ n, ∀ quote ∈ b.bidDepth n, b.QuoteExact .buy quote
  askDepth : ∀ n, ∀ quote ∈ b.askDepth n, b.QuoteExact .sell quote
  copyBids : ∀ n m quote, some quote ∈ (b.copyDepth n m).1 → b.QuoteExact .buy quote
  copyAsks : ∀ n m quote, some quote ∈ (b.copyDepth n m).2 → b.QuoteExact .sell quote
  validates : b.validateInvariants = true

section Exact

variable {b : OrderBook}

theorem unitsOn_view (inv : b.Inv) (side : Side) (price : Price) :
    b.view.unitsOn side (fun e => e.1 = price) =
      (OrderedMap.find price (b.levels side)).elim 0 (fun level => queueUnits level.orders) := by
  have hkey := (inv.levels side).sorted.filter_key (g := PriceLevel.orders) price
  rw [PriorityBook.unitsOn, view_orders, List.filter_map, GreedyFill.total, List.map_map]
  have hfilter : (cells (b.levels side)).filter
      ((fun e : Entry => decide (e.1 = price)) ∘ Cell.entry) =
        (cells (b.levels side)).filter (fun c => c.1 = price) := rfl
  rw [hfilter, cells, hkey, List.map_map]
  cases OrderedMap.find price (b.levels side) <;> rfl

theorem bounded_iff (inv : b.Inv) :
    b.view.Bounded ↔ ∀ side, ∀ e ∈ b.levels side, queueUnits e.2.orders < 2 ^ 64 := by
  constructor
  · intro h side e he
    have := h side e.1
    rwa [unitsOn_view inv, (inv.levels side).sorted.find_of_mem he] at this
  · intro h side price
    rw [unitsOn_view inv]
    cases hf : OrderedMap.find price (b.levels side) with
    | none => exact Nat.two_pow_pos 64
    | some level => exact h side _ (OrderedMap.mem_of_find hf)

theorem queueUnits_pos {orders : List Node} (h : orders ≠ []) : 0 < queueUnits orders := by
  obtain ⟨n, rest, rfl⟩ := List.exists_cons_of_ne_nil h
  have : 0 < n.units := n.order.remainingQuantity.pos
  rw [queueUnits, GreedyFill.total_cons]
  omega

theorem total_exact (inv : b.Inv) (h : b.view.Bounded) {side : Side} {e : Price × PriceLevel}
    (he : e ∈ b.levels side) :
    e.2.totalUnits.toNat = queueUnits e.2.orders ∧ e.2.totalUnits ≠ 0 := by
  have hlt := (bounded_iff inv).mp h side e he
  have hpos := queueUnits_pos ((inv.levels side).nonempty e he)
  have htotal := (inv.levels side).total e he
  have hnat : e.2.totalUnits.toNat = queueUnits e.2.orders := by
    rw [htotal, UInt64.toNat_ofNat', Nat.mod_eq_of_lt hlt]
  refine ⟨hnat, fun hz => ?_⟩
  rw [hz] at hnat
  have : (0 : UInt64).toNat = 0 := rfl
  omega

theorem quote_exact (inv : b.Inv) (h : b.view.Bounded) {side : Side} {e : Price × PriceLevel}
    (he : e ∈ b.levels side) : b.QuoteExact side (quote e) := by
  have hlt := (bounded_iff inv).mp h side e he
  have hpos := queueUnits_pos ((inv.levels side).nonempty e he)
  refine ⟨e.2, ⟨queueUnits e.2.orders, hpos, hlt⟩, he, ?_, rfl⟩
  rw [LevelQuote.quantity, quote, (total_exact inv h he).1]
  exact dif_pos ⟨hpos, hlt⟩

theorem mem_copyLevels {ls : Levels} {n : Nat} {q : LevelQuote}
    (h : some q ∈ copyLevels ls n) : ∃ e ∈ ls, quote e = q := by
  rcases List.mem_append.mp h with h | h
  · obtain ⟨e, he, hq⟩ := List.mem_map.mp h
    exact ⟨e, List.mem_of_mem_take he, Option.some.inj hq⟩
  · simp at h

theorem countedUnits_eq (orders : List Node) :
    countedUnits orders = UInt64.ofNat (queueUnits orders) := by
  have hfold : ∀ (acc : Nat) (orders : List Node),
      orders.foldl (fun counted n => counted + UInt64.ofNat n.order.units) (UInt64.ofNat acc) =
        UInt64.ofNat (acc + queueUnits orders) := by
    intro acc orders
    induction orders generalizing acc with
    | nil => rfl
    | cons n orders ih =>
      have hcons : queueUnits (n :: orders) = n.order.units + queueUnits orders :=
        GreedyFill.total_cons _ _ _
      rw [List.foldl_cons, ← UInt64.ofNat_add, ih, hcons, Nat.add_assoc]
  have := hfold 0 orders
  rwa [Nat.zero_add] at this

theorem indexedAt_of_mem (inv : b.Inv) {side : Side} {e : Price × PriceLevel}
    (he : e ∈ b.levels side) {n : Node} (hn : n ∈ e.2.orders) : b.indexedAt side e.1 n = true := by
  have hcell : ((e.1, n) : Cell) ∈ cells (b.levels side) := OrderedMap.mem_entries.mpr ⟨e.2, he, hn⟩
  have hplace : (n.order.orderId, (⟨side, e.1, n.address⟩ : OrderLocation)) ∈ places b :=
    (b.places_perm side).mem_iff.mpr (List.mem_append_left _ (List.mem_map_of_mem hcell))
  have hlookup := (inv.indexed.lookup _ _).mpr hplace
  obtain ⟨m, _, _, hid, hd⟩ := inv.locate hlookup
  simp [indexedAt, hlookup, hd, hid]

theorem validateLevels_eq_true (inv : b.Inv) (h : b.view.Bounded) (side : Side) :
    b.validateLevels side (b.levels side) = true := by
  rw [validateLevels, List.all_eq_true]
  intro e he
  have hne := (inv.levels side).nonempty e he
  have htotal := (inv.levels side).total e he
  have hindexed : ∀ n ∈ e.2.orders, b.indexedAt side e.1 n = true :=
    fun n hn => indexedAt_of_mem inv he hn
  simp only [Bool.and_eq_true, Bool.not_eq_true', List.isEmpty_eq_false_iff, bne_iff_ne,
    List.all_eq_true, beq_iff_eq]
  exact ⟨⟨⟨hne, (total_exact inv h he).2⟩, hindexed⟩, by rw [countedUnits_eq, htotal]⟩

theorem sum_queue_lengths (ls : Levels) :
    (ls.map (fun e => e.2.orders.length)).sum = (cells ls).length := by
  simp [cells, OrderedMap.entries, List.length_flatMap]

theorem validateInvariants_eq_true (inv : b.Inv) (h : b.view.Bounded) :
    b.validateInvariants = true := by
  have hcount : ((b.bids ++ b.asks).map (fun e => e.2.orders.length)).sum = (places b).length := by
    rw [List.map_append, List.sum_append, sum_queue_lengths, sum_queue_lengths]
    simp [places, sidePlaces]
  have hbest : ∀ bid ask, b.bestBid = some bid → b.bestAsk = some ask → bid < ask :=
    fun _ _ => inv.uncrossed_best
  have hbids := validateLevels_eq_true inv h .buy
  have hasks := validateLevels_eq_true inv h .sell
  simp only [levels] at hbids hasks
  have hrest : ∀ crossed : Bool, crossed = false →
      (!crossed && b.validateLevels .buy b.bids && b.validateLevels .sell b.asks &&
        (places b).length == b.restingOrderCount &&
        (places b).length == b.restingOrders.keys.card) = true := by
    rintro _ rfl
    simp [hbids, hasks, inv.indexed.count, card_keys inv]
  rw [validateInvariants, hcount]
  apply hrest
  cases hb : b.bestBid with
  | none => rfl
  | some bid =>
    cases ha : b.bestAsk with
    | none => rfl
    | some ask => simpa using hbest bid ask hb ha

theorem exactAggregates_iff (inv : b.Inv) : b.ExactAggregates ↔ b.view.Bounded := by
  constructor
  · intro h
    rw [bounded_iff inv]
    intro side e he
    rw [← (h.totals side e he).1]
    exact e.2.totalUnits.toNat_lt
  · intro h
    have hcopy : ∀ side n q, some q ∈ copyLevels (b.levels side) n → b.QuoteExact side q := by
      intro side n q hq
      obtain ⟨e, he, rfl⟩ := mem_copyLevels hq
      exact quote_exact inv h he
    have hdepth : ∀ side n, ∀ q ∈ ((b.levels side).take n).map quote, b.QuoteExact side q := by
      intro side n q hq
      obtain ⟨e, he, rfl⟩ := List.mem_map.mp hq
      exact quote_exact inv h (List.mem_of_mem_take he)
    have htop : ∀ side, ∀ q ∈ (b.levels side).head?.map quote, b.QuoteExact side q := by
      intro side q hq
      obtain ⟨e, he, rfl⟩ := Option.mem_map.mp hq
      exact quote_exact inv h (List.mem_of_mem_head? he)
    exact ⟨fun side e he => total_exact inv h he, htop .buy, htop .sell, hdepth .buy,
      hdepth .sell, fun n _ => hcopy .buy n, fun _ m => hcopy .sell m,
      validateInvariants_eq_true inv h⟩

end Exact

/-- Aggregates are exact in every state of a run exactly when every command of the run had
room where it left units. -/
theorem exactAggregates_iff_room (commands : List Command) :
    (∀ before, before <+: commands → (run before).ExactAggregates) ↔
      ∀ before c, before ++ [c] <+: commands → (run before).view.Room c := by
  have hempty : empty.ExactAggregates :=
    (exactAggregates_iff inv_empty).mpr fun side price => by cases side <;> exact Nat.two_pow_pos 64
  refine Transducer.forall_prefix_iff Inv ExactAggregates (fun b c => b.view.Room c)
    (fun b c inv => (step_spec inv c).1) ?_ inv_empty hempty commands
  intro b c inv hgood
  obtain ⟨hinv, hview, _⟩ := step_spec inv c
  rw [exactAggregates_iff hinv, hview]
  exact PriorityBook.step_bounded_iff inv.valid ((exactAggregates_iff inv).mp hgood) c

/-- Two bids of `2 ^ 63` units at one price. -/
def twoHalves : List Command :=
  let order (sequence : SequenceNumber) (id : OrderId) : Command :=
    .submit ⟨sequence, id, .buy, .limit, Quantity.of (2 ^ 63), some (Price.of 100)⟩
  [order (SequenceNumber.of 1) (OrderId.of 1), order (SequenceNumber.of 2) (OrderId.of 2)]

/-- Both are accepted, the aggregate of their level is zero, the quote of the level has no
quantity and the self-check fails. -/
theorem twoHalves_wrap :
    (∀ r ∈ results twoHalves, r.accepted = true) ∧
    (run twoHalves).bids.map (fun e => (e.2.totalUnits, queueUnits e.2.orders)) = [(0, 2 ^ 64)] ∧
    (run twoHalves).topBid.map LevelQuote.quantity = some none ∧
    (run twoHalves).validateInvariants = false ∧ ¬ (run twoHalves).ExactAggregates := by
  have hcheck : (run twoHalves).validateInvariants = false := by decide +kernel
  refine ⟨by decide +kernel, by decide +kernel, by decide +kernel, hcheck, fun h => ?_⟩
  have htrue := h.validates
  rw [hcheck] at htrue
  exact Bool.false_ne_true htrue

end OrderBook

end LowLatencyExchange
