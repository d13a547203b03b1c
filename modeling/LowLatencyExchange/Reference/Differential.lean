import LowLatencyExchange.Reference.Matching
import Mathlib.Tactic

/-!
# The order book against the reference book

As long as the sequence numbers of the commands do not decrease, the two books return the
same results, and after every command they give the same answers to the queries that the
differential test compares.
-/
namespace LowLatencyExchange

namespace ReferenceOrderBook

theorem orders_setOrders_eq (b : PriorityBook) (side : Side) (es : List Entry) :
    (b.setOrders side es).orders = Function.update b.orders side es := by
  funext s
  rcases Side.eq_or_eq_contra s side with rfl | rfl
  · simp
  · rw [PriorityBook.orders_contra_setOrders,
      Function.update_of_ne (by cases side <;> simp [Side.contra])]

structure Simulates (b : PriorityBook) (r : ReferenceOrderBook) : Prop where
  mirrors : Mirrors b.orders r.restingOrders
  seen : ∀ id, id ∈ r.seenOrderIds ↔ id ∈ b.seen

theorem simulates_empty : Simulates PriorityBook.empty empty where
  mirrors := ⟨List.nodup_nil, List.Pairwise.nil,
    fun side => by cases side <;> exact StableOrder.Arranges.nil⟩
  seen _ := by simp [empty, PriorityBook.empty]

section Commands

variable {b : PriorityBook} {rs : List RestingRefOrder}

/-- No order of the vector came later than this. -/
def StampedBy (sequence : SequenceNumber) (rs : List RestingRefOrder) : Prop :=
  ∀ o ∈ rs, o.sequence.value ≤ sequence.value

theorem StampedBy.of_sublist {sequence : SequenceNumber} {rs rs' : List RestingRefOrder}
    (h : StampedBy sequence rs) (hsub : (rs'.map stamp).Sublist (rs.map stamp)) :
    StampedBy sequence rs' := by
  intro o ho
  obtain ⟨x, hx, he⟩ := List.mem_map.mp (hsub.subset (List.mem_map_of_mem ho))
  have hseq : x.sequence = o.sequence := congrArg Prod.snd he
  exact hseq ▸ h x hx

/-- Taking liquidity, on both books. -/
theorem Mirrors.take (h : Mirrors b.orders rs) (incoming : OrderId) (side : Side)
    {type : OrderType} {limitPrice : Option Price} (hl : type = .limit → limitPrice.isSome)
    (q : Nat) :
    let t := b.take incoming side type limitPrice q
    let r := matchLoop incoming side type limitPrice rs q []
    Mirrors t.book.orders r.1 ∧ (r.1.map stamp).Sublist (rs.map stamp) ∧
      r.2.1 = t.rest ∧ r.2.2 = t.executions := by
  obtain ⟨hmirror, hsub, hrest, hexec⟩ := matchLoop_spec incoming hl h q []
  refine ⟨?_, hsub, hrest, hexec⟩
  rw [PriorityBook.take, orders_setOrders_eq]
  exact hmirror

/-- The order an id leaves resting at the end of a command, if there are units left. -/
def remainder (id : OrderId) (sequence : SequenceNumber) (side : Side) (price : Price) (q : Nat) :
    List RestingRefOrder :=
  (Quantity.fromUnits q).toList.map (fun quantity => ⟨id, sequence, side, price, quantity⟩)

/-- Resting what is left, on both books. -/
theorem Mirrors.post (h : Mirrors b.orders rs) {id : OrderId} {sequence : SequenceNumber}
    (hid : id ∉ rs.map RestingRefOrder.orderId) (hseq : StampedBy sequence rs) (side : Side)
    (price : Price) (q : Nat) :
    Mirrors (b.post id sequence side price q).orders
      (rs ++ remainder id sequence side price q) ∧
    StampedBy sequence (rs ++ remainder id sequence side price q) := by
  rw [PriorityBook.post, remainder]
  cases Quantity.fromUnits q with
  | none => simpa using ⟨h, hseq⟩
  | some quantity =>
    refine ⟨?_, ?_⟩
    · rw [orders_setOrders_eq]
      exact h.enqueue ⟨id, sequence, side, price, quantity⟩ hid hseq
    · simpa [StampedBy, or_imp, forall_and] using hseq

theorem Mirrors.absent (h : Mirrors b.orders rs) {id : OrderId} (ha : b.Absent id) :
    id ∉ rs.map RestingRefOrder.orderId := by
  intro hm
  obtain ⟨o, ho, rfl⟩ := List.mem_map.mp hm
  exact ha o.side (List.mem_map.mpr ⟨o.entry, h.mem_iff.mpr ⟨o, ho, rfl, rfl⟩, rfl⟩)

/-- A limit order takes what it can and rests the remainder, on both books. -/
theorem Mirrors.take_post (h : Mirrors b.orders rs) {id : OrderId} (ha : b.Absent id)
    {sequence : SequenceNumber} (hseq : StampedBy sequence rs) (side : Side) (price : Price)
    (q : Nat) :
    let t := b.take id side .limit (some price) q
    let r := matchLoop id side .limit (some price) rs q []
    Mirrors (t.book.post id sequence side price t.rest).orders
        (r.1 ++ remainder id sequence side price r.2.1) ∧
      StampedBy sequence (r.1 ++ remainder id sequence side price r.2.1) ∧
      r.2.1 = t.rest ∧ r.2.2 = t.executions := by
  have hlimit : OrderType.limit = .limit → (some price).isSome := fun _ => rfl
  obtain ⟨htaken, hsub, hrest, hexec⟩ := h.take id side hlimit q
  have hid := htaken.absent (ha.take id side .limit (some price) q)
  obtain ⟨hposted, hstamped⟩ := htaken.post hid (hseq.of_sublist hsub) side price
    (b.take id side .limit (some price) q).rest
  intro t r
  rw [hrest]
  exact ⟨hposted, hstamped, rfl, hexec⟩

/-- Both books find the same order under an id, or none. -/
theorem Mirrors.find (h : Mirrors b.orders rs) (ids : b.UniqueIds) (id : OrderId) :
    b.find id = (rs.find? (fun o => o.orderId = id)).map (fun o => (o.side, o.entry)) := by
  cases hf : rs.find? (fun o => o.orderId = id) with
  | none =>
    refine PriorityBook.find_eq_none.mpr fun side hm => ?_
    obtain ⟨e, he, rfl⟩ := List.mem_map.mp hm
    obtain ⟨o, ho, _, rfl⟩ := h.mem_iff.mp he
    exact UniqueKeys.find_eq_none.mp hf (List.mem_map_of_mem ho)
  | some o =>
    obtain ⟨ho, hid⟩ := (UniqueKeys.find_eq_some h.ids).mp hf
    exact ids.find_eq_some.mpr ⟨h.mem_iff.mpr ⟨o, ho, rfl, rfl⟩, hid⟩

end Commands

/-! ## Steps -/

section Step

variable {b : PriorityBook} {r : ReferenceOrderBook}

theorem submit_limit {order : NewOrder} {price : Price} (ht : order.type = .limit)
    (hp : order.limitPrice = some price) (hs : order.orderId ∉ r.seenOrderIds) :
    let m := matchLoop order.orderId order.side .limit (some price) r.restingOrders
      order.quantity.units []
    r.submit order =
      (⟨m.1 ++ remainder order.orderId order.sequence order.side price m.2.1,
        r.seenOrderIds ++ [order.orderId]⟩, ⟨m.2.2, none, Quantity.fromUnits m.2.1⟩) := by
  have hv : validate order = none := validate_limit ht hp
  intro m
  simp only [submit, hv, Option.isSome_none, Bool.false_eq_true, if_false, List.any_eq_true,
    decide_eq_true_eq, exists_eq_right, hs, ht, hp, remainder]
  cases Quantity.fromUnits m.2.1 <;> simp [m]

theorem submit_market {order : NewOrder} (ht : order.type = .market)
    (hp : order.limitPrice = none) (hs : order.orderId ∉ r.seenOrderIds) :
    let m := matchLoop order.orderId order.side .market none r.restingOrders
      order.quantity.units []
    r.submit order = (⟨m.1, r.seenOrderIds ++ [order.orderId]⟩, ⟨m.2.2, none, none⟩) := by
  have hv : validate order = none := validate_market ht hp
  intro m
  simp only [submit, hv, Option.isSome_none, Bool.false_eq_true, if_false, List.any_eq_true,
    decide_eq_true_eq, exists_eq_right, hs, ht, hp]
  rfl

theorem replace_requeue {command : ReplaceOrder} {o : RestingRefOrder}
    (hf : r.restingOrders.find? (fun o => o.orderId = command.orderId) = some o)
    (hc : ¬ (command.newPrice = o.price ∧
      command.newQuantity.units ≤ o.remainingQuantity.units)) :
    let m := matchLoop command.orderId o.side .limit (some command.newPrice)
      (r.restingOrders.eraseP (fun o => o.orderId = command.orderId)) command.newQuantity.units []
    r.replace command =
      ({ r with restingOrders := m.1 ++
          remainder command.orderId command.sequence o.side command.newPrice m.2.1 },
        ⟨command.orderId, m.2.2, Quantity.fromUnits m.2.1, none⟩) := by
  intro m
  simp only [replace, hf, if_neg hc, remainder]
  cases Quantity.fromUnits m.2.1 <;> simp [m]

theorem Simulates.seen_markSeen (sim : Simulates b r) (id : OrderId) :
    ∀ x, x ∈ r.seenOrderIds ++ [id] ↔ x ∈ (b.markSeen id).seen := by
  intro x
  simp [PriorityBook.markSeen, sim.seen, or_comm]

/-- Every command keeps the simulation, returns the same result, and stamps no order later
than itself. -/
theorem Simulates.step (sim : Simulates b r) (valid : b.Valid) (c : Command)
    (hseq : StampedBy c.sequence r.restingOrders) :
    Simulates (b.step c).1 (r.step c).1 ∧ (b.step c).2 = (r.step c).2 ∧
      StampedBy c.sequence (r.step c).1.restingOrders := by
  have hmirrors := sim.mirrors
  have htrans := b.step_transition c
  generalize b.step c = x at htrans
  cases htrans with
  | invalid order hv =>
    have hr : r.step (.submit order) = (r, .submit ⟨[], some .invalidOrder, none⟩) := by
      simp [ReferenceOrderBook.step, submit, Option.isSome_iff_ne_none, hv]
    rw [hr]
    exact ⟨sim, rfl, hseq⟩
  | duplicate order hv hs =>
    have hr : r.step (.submit order) = (r, .submit ⟨[], some .duplicateOrderId, none⟩) := by
      simp [ReferenceOrderBook.step, submit, hv, (sim.seen _).mpr hs]
    rw [hr]
    exact ⟨sim, rfl, hseq⟩
  | limit order price ht hp hs t h =>
    have hmarked : Mirrors (b.markSeen order.orderId).orders r.restingOrders := by
      simpa only [funext (b.orders_markSeen order.orderId)] using hmirrors
    have habsent := (valid.absent hs).markSeen order.orderId
    obtain ⟨hposted, hstamped, hrest, hexec⟩ := hmarked.take_post habsent hseq order.side price
      order.quantity.units
    have hr := submit_limit ht hp (mt (sim.seen _).mp hs)
    simp only [ReferenceOrderBook.step, hr, h]
    refine ⟨⟨hposted, ?_⟩, by rw [hrest, hexec], hstamped⟩
    rw [PriorityBook.post_seen, PriorityBook.take_seen]
    exact sim.seen_markSeen order.orderId
  | market order ht hp hs t h =>
    have hmarked : Mirrors (b.markSeen order.orderId).orders r.restingOrders := by
      simpa only [funext (b.orders_markSeen order.orderId)] using hmirrors
    have hmarket : OrderType.market = .limit → (none : Option Price).isSome := by simp
    obtain ⟨htaken, hsub, _, hexec⟩ := hmarked.take order.orderId order.side hmarket
      order.quantity.units
    have hr := submit_market ht hp (mt (sim.seen _).mp hs)
    simp only [ReferenceOrderBook.step, hr, h]
    refine ⟨⟨htaken, ?_⟩, by rw [hexec], hseq.of_sublist hsub⟩
    rw [PriorityBook.take_seen]
    exact sim.seen_markSeen order.orderId
  | cancelMissing command hf =>
    rw [hmirrors.find valid.ids, Option.map_eq_none_iff] at hf
    simp only [ReferenceOrderBook.step, cancel, hf]
    exact ⟨sim, trivial, hseq⟩
  | cancelled command side e hf =>
    rw [hmirrors.find valid.ids, Option.map_eq_some_iff] at hf
    obtain ⟨o, ho, heq⟩ := hf
    obtain ⟨rfl, rfl⟩ := Prod.mk.inj heq
    simp only [ReferenceOrderBook.step, cancel, ho, UniqueKeys.eraseP_eq_filter hmirrors.ids]
    refine ⟨⟨?_, sim.seen⟩, rfl, fun x hx => hseq x (List.mem_of_mem_filter hx)⟩
    simpa only [funext (b.orders_remove command.orderId)] using hmirrors.filter command.orderId
  | replaceMissing command hf =>
    rw [hmirrors.find valid.ids, Option.map_eq_none_iff] at hf
    simp only [ReferenceOrderBook.step, replace, hf]
    exact ⟨sim, trivial, hseq⟩
  | reduced command side e hf hc =>
    rw [hmirrors.find valid.ids, Option.map_eq_some_iff] at hf
    obtain ⟨o, ho, heq⟩ := hf
    obtain ⟨rfl, rfl⟩ := Prod.mk.inj heq
    have hc' : command.newPrice = o.price ∧
      command.newQuantity.units ≤ o.remainingQuantity.units := hc
    simp only [ReferenceOrderBook.step, replace, ho, if_pos hc', assignFirst_eq_map hmirrors.ids]
    refine ⟨⟨?_, sim.seen⟩, trivial, ?_⟩
    · simpa only [funext (b.orders_reduce command.orderId command.newQuantity)] using
        hmirrors.map command.orderId command.newQuantity
    · simpa [StampedBy] using hseq
  | requeued command side e hf hc t h =>
    rw [hmirrors.find valid.ids, Option.map_eq_some_iff] at hf
    obtain ⟨o, ho, heq⟩ := hf
    obtain ⟨rfl, rfl⟩ := Prod.mk.inj heq
    have hremoved : Mirrors (b.remove command.orderId).orders
        (r.restingOrders.filter (fun o => o.orderId ≠ command.orderId)) := by
      simpa only [funext (b.orders_remove command.orderId)] using hmirrors.filter command.orderId
    have hstamped : StampedBy command.sequence
        (r.restingOrders.filter (fun o => o.orderId ≠ command.orderId)) :=
      fun x hx => hseq x (List.mem_of_mem_filter hx)
    obtain ⟨hposted, hstamped, hrest, hexec⟩ := hremoved.take_post
      (b.absent_remove command.orderId) hstamped o.side command.newPrice command.newQuantity.units
    have hr := replace_requeue ho hc
    simp only [ReferenceOrderBook.step, hr, h, UniqueKeys.eraseP_eq_filter hmirrors.ids]
    refine ⟨⟨hposted, ?_⟩, by rw [hrest, hexec], hstamped⟩
    rw [PriorityBook.post_seen, PriorityBook.take_seen]
    exact sim.seen

end Step

/-- The reference book simulates the priority book along every run. -/
theorem run_simulates {commands : List Command}
    (h : commands.Pairwise (fun c d => c.sequence.value ≤ d.sequence.value)) :
    Simulates (PriorityBook.run commands) (run commands) ∧
      PriorityBook.results commands = results commands ∧
      ∀ c ∈ commands.getLast?, StampedBy c.sequence (run commands).restingOrders := by
  induction commands using List.reverseRecOn with
  | nil => exact ⟨simulates_empty, rfl, by simp⟩
  | append_singleton commands c ih =>
    obtain ⟨hbefore, _, hlast⟩ := List.pairwise_append.mp h
    obtain ⟨sim, hresults, hstamped⟩ := ih hbefore
    have hseq : StampedBy c.sequence (run commands).restingOrders := by
      cases hl : commands.getLast? with
      | none =>
        obtain rfl := List.getLast?_eq_none_iff.mp hl
        exact fun o ho => absurd ho List.not_mem_nil
      | some d =>
        intro o ho
        have hd := hlast d (List.mem_of_getLast? hl) c List.mem_cons_self
        exact (hstamped d hl o ho).trans hd
    obtain ⟨hsim, hresult, hnext⟩ := sim.step (PriorityBook.run_valid commands) c hseq
    simp only [PriorityBook.run, run, PriorityBook.results, results, Transducer.run_concat,
      Transducer.outputs_concat] at *
    refine ⟨hsim, by rw [hresults, hresult], ?_⟩
    simpa using hnext

/-! ## Queries -/

/-- One round of the scan for the best price, on the side's prices alone. -/
def improve (side : Side) (best : Option Price) (price : Price) : Option Price :=
  match best with
  | none => some price
  | some current => if side.before price current then some price else some current

theorem bestPrice_eq_foldl (side : Side) (rs : List RestingRefOrder) :
    bestPrice side rs = ((onSide side rs).map Prod.fst).foldl (improve side) none := by
  rw [onSide, List.map_map, List.foldl_map, List.foldl_filter, bestPrice]
  simp only [decide_eq_true_eq]
  rfl

/-- The scan ends at a price that none comes before. -/
theorem foldl_improve (side : Side) (p : Price) (ps : List Price) :
    ∃ q ∈ p :: ps, ps.foldl (improve side) (some p) = some q ∧
      ∀ x ∈ p :: ps, ¬ side.before x q := by
  induction ps generalizing p with
  | nil => exact ⟨p, by simp, rfl, by simpa using irrefl (r := side.before) p⟩
  | cons x ps ih =>
    by_cases hb : side.before x p
    · obtain ⟨q, hq, heq, hleast⟩ := ih x
      obtain ⟨hx, hps⟩ := List.forall_mem_cons.mp hleast
      refine ⟨q, List.mem_cons_of_mem _ hq, by simpa [improve, hb] using heq, ?_⟩
      have hp : ¬ side.before p q := fun hpq => hx (IsTrans.trans _ _ _ hb hpq)
      exact List.forall_mem_cons.mpr ⟨hp, hleast⟩
    · obtain ⟨q, hq, heq, hleast⟩ := ih p
      obtain ⟨hp, hps⟩ := List.forall_mem_cons.mp hleast
      refine ⟨q, ?_, by simpa [improve, hb] using heq, ?_⟩
      · grind
      · have hx : ¬ side.before x q := by
          intro hxq
          rcases trichotomous (r := side.before) x p with hxp | rfl | hpx
          · exact hb hxp
          · exact hp hxq
          · exact hp (IsTrans.trans _ _ _ hpx hxq)
        exact List.forall_mem_cons.mpr ⟨hp, List.forall_mem_cons.mpr ⟨hx, hps⟩⟩

section Queries

variable {orders : Side → List Entry} {rs : List RestingRefOrder}

/-- The scan finds the price at the head of the priority list. -/
theorem Mirrors.bestPrice (h : Mirrors orders rs) (side : Side) :
    ReferenceOrderBook.bestPrice side rs = (orders side).head?.map Prod.fst := by
  have harr := h.arranges side
  have hmem : ∀ p, p ∈ (orders side).map Prod.fst ↔ p ∈ (onSide side rs).map Prod.fst :=
    fun p => (harr.perm.map Prod.fst).mem_iff
  rw [bestPrice_eq_foldl]
  cases hs : (onSide side rs).map Prod.fst with
  | nil =>
    have hnil : (orders side).map Prod.fst = [] := by
      rw [List.eq_nil_iff_forall_not_mem]
      intro p hp
      simpa [hs] using (hmem p).mp hp
    simp [List.map_eq_nil_iff.mp hnil]
  | cons p ps =>
    obtain ⟨q, hq, heq, hleast⟩ := foldl_improve side p ps
    rw [← hs] at hq hleast
    have hfold : (p :: ps).foldl (improve side) none = some q := heq
    rw [hfold]
    have hq' := (hmem q).mpr hq
    cases ho : orders side with
    | nil => simp [ho] at hq'
    | cons e es =>
      have hpair := harr.pairwise
      rw [ho] at hpair hq'
      have he := hleast e.1 ((hmem e.1).mp (by simp [ho]))
      have hqe : ¬ side.before q e.1 := by
        obtain ⟨x, hx, rfl⟩ := List.mem_map.mp hq'
        rcases List.mem_cons.mp hx with rfl | hx
        · exact irrefl (r := side.before) _
        · exact (List.pairwise_cons.mp hpair).1 x hx
      rcases trichotomous (r := side.before) q e.1 with hlt | rfl | hgt
      · exact absurd hlt hqe
      · rfl
      · exact absurd hgt he

theorem Mirrors.length_eq (h : Mirrors orders rs) :
    rs.length = (orders .buy).length + (orders .sell).length := by
  have hside : ∀ side, (orders side).length = (rs.filter (fun o => o.side = side)).length := by
    intro side
    rw [(h.arranges side).perm.length_eq, onSide, List.length_map]
  have hsplit := rs.length_eq_length_filter_add (fun o => decide (o.side = Side.buy))
  have hother : (rs.filter (fun o => !decide (o.side = Side.buy))) =
      rs.filter (fun o => o.side = .sell) := by
    refine List.filter_congr fun o _ => ?_
    cases o.side <;> rfl
  rw [hother] at hsplit
  rw [hside, hside, hsplit]

/-- Both books aggregate the same orders at each price. -/
theorem Mirrors.aggregate_eq (h : Mirrors orders rs) (side : Side) :
    aggregate side ((rs.filter (fun o => o.side = side)).map
      (fun o => (o.price, o.remainingQuantity))) =
        aggregate side ((orders side).map Entry.priced) := by
  have hpriced : (rs.filter (fun o => o.side = side)).map
      (fun o => (o.price, o.remainingQuantity)) = (onSide side rs).map Entry.priced := by
    rw [onSide, List.map_map]
    rfl
  rw [hpriced]
  refine aggregate_congr side fun price => ?_
  have hcomp : (fun e : Price × Quantity => decide (e.1 = price)) ∘ Entry.priced =
      fun e : Entry => decide (e.1 = price) := rfl
  rw [List.filter_map, List.filter_map, hcomp, (h.arranges side).group]

end Queries

/-- What the differential test compares after every step. -/
structure AgreesWith (r : ReferenceOrderBook) (b : OrderBook) : Prop where
  bestBid : b.bestBid = r.bestBid
  bestAsk : b.bestAsk = r.bestAsk
  restingOrderCount : b.restingOrderCount = r.restingOrderCount
  bidDepth : ∀ maxDepth, b.bidDepth maxDepth = r.bidDepth maxDepth
  askDepth : ∀ maxDepth, b.askDepth maxDepth = r.askDepth maxDepth

theorem Simulates.agreesWith {b : OrderBook} {r : ReferenceOrderBook} (inv : b.Inv)
    (sim : Simulates b.view r) : r.AgreesWith b where
  bestBid := (OrderBook.head_price inv .buy).trans (sim.mirrors.bestPrice .buy).symm
  bestAsk := (OrderBook.head_price inv .sell).trans (sim.mirrors.bestPrice .sell).symm
  restingOrderCount := (OrderBook.restingOrderCount_eq inv).trans sim.mirrors.length_eq.symm
  bidDepth maxDepth := by
    rw [ReferenceOrderBook.bidDepth, depthOf, sim.mirrors.aggregate_eq]
    exact OrderBook.depth_eq_aggregate inv .buy maxDepth
  askDepth maxDepth := by
    rw [ReferenceOrderBook.askDepth, depthOf, sim.mirrors.aggregate_eq]
    exact OrderBook.depth_eq_aggregate inv .sell maxDepth

/-- Two books run side by side on commands whose sequence numbers do not decrease return the
same results and agree after every command. -/
theorem run_agrees (commands : List Command)
    (h : (commands.map (fun c => c.sequence.value)).IsChain (· ≤ ·)) :
    OrderBook.results commands = results commands ∧
      ∀ before, before <+: commands → (run before).AgreesWith (OrderBook.run before) := by
  have hpair : commands.Pairwise (fun c d => c.sequence.value ≤ d.sequence.value) :=
    List.pairwise_map.mp (List.isChain_iff_pairwise.mp h)
  refine ⟨(OrderBook.run_view commands).2.trans (run_simulates hpair).2.1, fun before hb => ?_⟩
  have hsim := (run_simulates (hpair.sublist hb.sublist)).1
  rw [← (OrderBook.run_view before).1] at hsim
  exact hsim.agreesWith (OrderBook.run_inv before)

/-- Three bids at one price under one sequence number. The first is reduced in place, the
second is raised and so goes last, and a sale fills the first, the third and a part of the
second. -/
def requeuedBids : List Command :=
  let sequence := SequenceNumber.of 7
  let price := Price.of 100
  let five := Quantity.of 5
  let first := OrderId.of 1
  let second := OrderId.of 2
  [.submit ⟨sequence, first, .buy, .limit, five, some price⟩,
    .submit ⟨sequence, second, .buy, .limit, five, some price⟩,
    .submit ⟨sequence, OrderId.of 3, .buy, .limit, five, some price⟩,
    .replace ⟨sequence, first, Quantity.of 3, price⟩,
    .replace ⟨sequence, second, Quantity.of 6, price⟩,
    .submit ⟨sequence, OrderId.of 4, .sell, .limit, Quantity.of 10,
      some price⟩]

/-- Equal sequence numbers are enough. -/
theorem requeuedBids_agree :
    (requeuedBids.map (fun c => c.sequence.value)).IsChain (· ≤ ·) ∧
    ((results requeuedBids).flatMap Result.executions).map
      (fun x => (x.restingOrderId.value, x.quantity.units)) = [(1, 3), (3, 5), (2, 2)] ∧
    (run requeuedBids).AgreesWith (OrderBook.run requeuedBids) := by
  have hchain : (requeuedBids.map (fun c => c.sequence.value)).IsChain (· ≤ ·) := by decide
  have hexecutions : ((OrderBook.results requeuedBids).flatMap Result.executions).map
      (fun x => (x.restingOrderId.value, x.quantity.units)) = [(1, 3), (3, 5), (2, 2)] := by
    decide +kernel
  obtain ⟨hresults, hagree⟩ := run_agrees requeuedBids hchain
  exact ⟨hchain, hresults ▸ hexecutions, hagree _ (List.prefix_refl _)⟩

end ReferenceOrderBook

end LowLatencyExchange
