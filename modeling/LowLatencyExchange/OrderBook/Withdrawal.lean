import LowLatencyExchange.OrderBook.Effects
import LowLatencyExchange.OrderBook.Depth
import Mathlib.Tactic

/-!
# An order that is withdrawn untouched

An order that rests, is never executed against and is cancelled leaves no trace but its id.
While it rests, the book without it makes every step that the book with it makes, with the
same result: a fill that does not reach the order would not have gone further without it.
-/
namespace LowLatencyExchange

namespace PriorityBook

section Remove

variable {b : PriorityBook} (x : OrderId)

theorem remove_setOrders (b : PriorityBook) (side : Side) (es : List Entry) :
    (b.setOrders side es).remove x =
      (b.remove x).setOrders side (es.filter (fun e => e.id ≠ x)) := by
  cases side <;> rfl

theorem remove_markSeen (b : PriorityBook) (id : OrderId) :
    (b.markSeen id).remove x = (b.remove x).markSeen id := rfl

theorem find_remove {id : OrderId} (h : id ≠ x) (b : PriorityBook) :
    (b.remove x).find id = b.find id := by
  have hfind : ∀ es : List Entry, (es.filter (fun e => e.id ≠ x)).find? (fun e => e.id = id) =
      es.find? (fun e => e.id = id) := by
    intro es
    rw [List.find?_filter]
    congr 1
    funext e
    by_cases he : e.id = id
    · simp [he, h]
    · simp [he]
  simp only [find, remove, hfind]

theorem remove_remove (b : PriorityBook) (id : OrderId) :
    (b.remove x).remove id = (b.remove id).remove x := by
  simp only [remove, List.filter_filter, Bool.and_comm]

theorem remove_reduce (b : PriorityBook) (id : OrderId) (quantity : Quantity) :
    (b.remove x).reduce id quantity = (b.reduce id quantity).remove x := by
  simp only [reduce, remove, List.filter_map, Function.comp_def, setQuantity_id]

/-- Liquidity that is not taken from an order is taken from the book without it. -/
theorem take_remove (valid : b.Valid) (incoming : OrderId) (side : Side) (type : OrderType)
    (limitPrice : Option Price) (q : Nat)
    (h : x ∉ (b.take incoming side type limitPrice q).executions.map Execution.restingOrderId) :
    (b.remove x).take incoming side type limitPrice q =
      { b.take incoming side type limitPrice q with
        book := (b.take incoming side type limitPrice q).book.remove x } := by
  have hmono : (b.orders side.contra).Pairwise fun y z : Entry =>
      OrderBook.crosses side type limitPrice z.1 → OrderBook.crosses side type limitPrice y.1 :=
    (valid.sorted side.contra).imp fun hyz hz => crosses_mono hyz hz
  have hkept : ∀ y ∈ (fill (OrderBook.crosses side type limitPrice) (b.orders side.contra) q).fills
      Entry.units, decide (y.1.id ≠ x) = true := by
    intro y hy
    have hmem : y.1.id ∈ (b.take incoming side type limitPrice q).executions.map
        Execution.restingOrderId := by
      rw [take, List.map_map]
      exact List.mem_map.mpr ⟨y, hy, rfl⟩
    exact decide_eq_true fun he => h (he ▸ hmem)
  have hfill := GreedyFill.fill_filter _ Entry.units Entry.cut (fun e : Entry => decide (e.id ≠ x))
    (fun e n => by rw [Entry.cut_id]) hmono q hkept
  simp only [take, orders_remove, remove_setOrders]
  rw [fill, hfill]
  rfl

theorem post_remove (hsorted : ∀ side, (b.orders side).Pairwise fun y z => ¬ side.before z.1 y.1)
    {id : OrderId} (hid : id ≠ x) (sequence : SequenceNumber) (side : Side) (price : Price)
    (q : Nat) :
    (b.remove x).post id sequence side price q = (b.post id sequence side price q).remove x := by
  unfold post
  cases Quantity.fromUnits q with
  | none => rfl
  | some quantity =>
    dsimp only
    rw [remove_setOrders, orders_remove, enqueue, enqueue]
    congr 1
    exact StableOrder.orderedInsert_filter (hsorted side) (decide_eq_true hid)

/-- Taking liquidity leaves each side in price order. -/
theorem take_sorted (valid : b.Valid) (incoming : OrderId) (side : Side) (type : OrderType)
    (limitPrice : Option Price) (q : Nat) (s : Side) :
    ((b.take incoming side type limitPrice q).book.orders s).Pairwise
      fun y z => ¬ s.before z.1 y.1 := by
  rcases Side.eq_or_eq_contra s side with rfl | rfl
  · rw [take_orders_own]
    exact valid.sorted s
  · have hprices := fill_map_append Prod.fst (fun _ _ => rfl)
      (OrderBook.crosses side type limitPrice) (b.orders side.contra) q
    have hsorted : ((b.orders side.contra).map Prod.fst).Pairwise
        fun p p' => ¬ side.contra.before p' p := List.pairwise_map.mpr (valid.sorted side.contra)
    rw [hprices] at hsorted
    rw [take_orders_contra]
    exact List.pairwise_map.mp (List.pairwise_append.mp hsorted).2.1

/-- The book without an order makes the steps that do not concern it. -/
theorem step_remove (valid : b.Valid) {c : Command} (hid : c.orderId ≠ x)
    (h : x ∉ (b.step c).2.restingIds) :
    (b.remove x).step c = ((b.step c).1.remove x, (b.step c).2) := by
  have htrans := b.step_transition c
  generalize b.step c = r at htrans h
  cases htrans with
  | invalid order hv =>
    have hv' := Option.isSome_iff_ne_none.mpr hv
    simp [step, submit, hv']
  | duplicate order hv hs =>
    have hs' : order.orderId ∈ (b.remove x).seen := hs
    simp [step, submit, hv, hs']
  | limit order price ht hp hs t ht' =>
    have hs' : order.orderId ∉ (b.remove x).seen := hs
    have hv : validate order = none := validate_limit ht hp
    replace hid : order.orderId ≠ x := hid
    subst ht'
    have htake := take_remove x (valid.markSeen order.orderId) order.orderId order.side .limit
      (some price) order.quantity.units h
    have hpost := post_remove x (take_sorted (valid.markSeen order.orderId) order.orderId order.side
      .limit (some price) order.quantity.units) hid order.sequence order.side price
    rw [remove_markSeen] at htake
    simp only [step, submit, hv, hs', ht, hp, Option.isSome_none, Bool.false_eq_true, if_false,
      htake, hpost]
  | market order ht hp hs t ht' =>
    have hs' : order.orderId ∉ (b.remove x).seen := hs
    have hv : validate order = none := validate_market ht hp
    replace hid : order.orderId ≠ x := hid
    subst ht'
    have htake := take_remove x (valid.markSeen order.orderId) order.orderId order.side .market
      none order.quantity.units h
    rw [remove_markSeen] at htake
    simp only [step, submit, hv, hs', ht, hp, Option.isSome_none, Bool.false_eq_true, if_false,
      htake]
  | cancelMissing command hf =>
    have hf' : (b.remove x).find command.orderId = none := (find_remove x hid b).trans hf
    simp only [step, cancel, hf']
  | cancelled command side e hf =>
    have hf' : (b.remove x).find command.orderId = some (side, e) := (find_remove x hid b).trans hf
    simp only [step, cancel, hf', remove_remove]
  | replaceMissing command hf =>
    have hf' : (b.remove x).find command.orderId = none := (find_remove x hid b).trans hf
    simp only [step, replace, hf']
  | reduced command side e hf hc =>
    have hf' : (b.remove x).find command.orderId = some (side, e) := (find_remove x hid b).trans hf
    simp only [step, replace, hf', if_pos hc, remove_reduce]
  | requeued command side e hf hc t ht =>
    replace hid : command.orderId ≠ x := hid
    rw [← find_remove x hid] at hf
    subst ht
    have htake := take_remove x (valid.remove command.orderId) command.orderId side .limit
      (some command.newPrice) command.newQuantity.units h
    have hpost := post_remove x (take_sorted (valid.remove command.orderId) command.orderId side
      .limit (some command.newPrice) command.newQuantity.units) hid command.sequence side
      command.newPrice
    rw [← remove_remove] at htake
    simp only [step, replace, hf, if_neg hc, htake, hpost]

end Remove

section MarkSeen

variable (b : PriorityBook) (x : OrderId)

theorem setOrders_markSeen (side : Side) (es : List Entry) :
    (b.markSeen x).setOrders side es = (b.setOrders side es).markSeen x := by cases side <;> rfl

theorem take_markSeen (incoming : OrderId) (side : Side) (type : OrderType)
    (limitPrice : Option Price) (q : Nat) :
    (b.markSeen x).take incoming side type limitPrice q =
      { b.take incoming side type limitPrice q with
        book := (b.take incoming side type limitPrice q).book.markSeen x } := by
  simp only [take, orders_markSeen, setOrders_markSeen]

theorem post_markSeen (id : OrderId) (sequence : SequenceNumber) (side : Side) (price : Price)
    (q : Nat) :
    (b.markSeen x).post id sequence side price q = (b.post id sequence side price q).markSeen x := by
  unfold post
  cases Quantity.fromUnits q with
  | none => rfl
  | some quantity =>
    dsimp only
    rw [setOrders_markSeen, orders_markSeen]

/-- An id that is marked as seen matters only to new orders that use it. -/
theorem step_markSeen {c : Command} (hid : c.orderId ≠ x) :
    (b.markSeen x).step c = ((b.step c).1.markSeen x, (b.step c).2) := by
  cases c with
  | submit order =>
    have hs : order.orderId ∈ (b.markSeen x).seen ↔ order.orderId ∈ b.seen := by
      have hne : order.orderId ≠ x := hid
      simp [markSeen, hne]
    have hcomm : (b.markSeen x).markSeen order.orderId = (b.markSeen order.orderId).markSeen x := by
      simp [markSeen, Finset.insert_comm]
    simp only [step, submit, hs, hcomm, take_markSeen]
    split_ifs
    · rfl
    · rfl
    · cases order.type <;> cases order.limitPrice
      case limit.some price => simp only [post_markSeen]
      all_goals rfl
  | cancel command =>
    have hf : (b.markSeen x).find command.orderId = b.find command.orderId := rfl
    simp only [step, cancel, hf]
    cases b.find command.orderId <;> rfl
  | replace command =>
    have hf : (b.markSeen x).find command.orderId = b.find command.orderId := rfl
    simp only [step, replace, hf, remove_markSeen, take_markSeen, post_markSeen]
    cases b.find command.orderId with
    | none => rfl
    | some found =>
      dsimp only
      split_ifs <;> rfl

end MarkSeen

end PriorityBook

namespace PriorityBook

variable {b : PriorityBook}

theorem mem_seen_step {c : Command} {id : OrderId} (h : id ∈ (b.step c).1.seen) :
    id ∈ b.seen ∨ id = c.orderId := by
  rw [step_seen] at h
  cases c with
  | submit order =>
    dsimp only at h
    split_ifs at h
    · exact (Finset.mem_insert.mp h).symm
    · exact .inl h
  | cancel command => exact .inl h
  | replace command => exact .inl h

/-- Taking nothing changes nothing. -/
theorem take_untaken {incoming : OrderId} {side : Side} {type : OrderType}
    {limitPrice : Option Price} {q : Nat}
    (h : (b.take incoming side type limitPrice q).executions = []) :
    (b.take incoming side type limitPrice q).book = b ∧
      (b.take incoming side type limitPrice q).rest = q := by
  have hsum := b.take_executed incoming side type limitPrice q
  rw [h] at hsum
  refine ⟨?_, by simpa [executedUnits] using hsum⟩
  have hfills := List.map_eq_nil_iff.mp h
  have hsplit := GreedyFill.fill_split (fun e : Entry => OrderBook.crosses side type limitPrice e.1)
    Entry.units Entry.cut (b.orders side.contra) q
  have hleft : (fill (OrderBook.crosses side type limitPrice) (b.orders side.contra) q).left =
      b.orders side.contra := by
    obtain ⟨hgone, hpart⟩ := List.append_eq_nil_iff.mp hfills
    rcases hsplit with ⟨tail, -, hs, hl⟩ | ⟨a, n, tail, hp, -⟩
    · have hnil := List.map_eq_nil_iff.mp hgone
      unfold fill at hnil ⊢
      rw [hl, hs, hnil, List.nil_append]
    · unfold fill at hpart
      rw [hp] at hpart
      cases hpart
  rw [take, hleft]
  cases side <;> rfl

/-- An order that was left on the book and is removed again. -/
theorem remove_post {id : OrderId} (habsent : b.Absent id)
    (hsorted : ∀ side, (b.orders side).Pairwise fun y z => ¬ side.before z.1 y.1)
    (sequence : SequenceNumber) (side : Side) (price : Price) (q : Nat) :
    (b.post id sequence side price q).remove id = b := by
  have hsame : b.remove id = b := by
    have hbids := UniqueKeys.filter_of_notMem (habsent .buy)
    have hasks := UniqueKeys.filter_of_notMem (habsent .sell)
    simp only [orders] at hbids hasks
    rw [remove, hbids, hasks]
  unfold post
  cases Quantity.fromUnits q with
  | none => exact hsame
  | some quantity =>
    obtain ⟨front, back, hs, hi, -⟩ := enqueue_split (hsorted side)
      (price, ⟨id, sequence, quantity⟩)
    have hfilter : (enqueue side (price, ⟨id, sequence, quantity⟩) (b.orders side)).filter
        (fun e => e.id ≠ id) = b.orders side := by
      have hkeep := UniqueKeys.filter_of_notMem (habsent side)
      rw [hs, List.filter_append] at hkeep
      rw [hi, List.filter_append, List.filter_cons_of_neg (by simp [Entry.id]), hkeep, hs]
    dsimp only
    rw [remove_setOrders, hfilter, hsame]
    cases side <;> rfl

/-- A limit order that was accepted without an execution rests with all its units. -/
theorem submit_untaken (valid : b.Valid) {order : NewOrder} (hlimit : order.type = .limit)
    (haccepted : (b.submit order).2.rejection = none) (hnone : (b.submit order).2.executions = []) :
    order.orderId ∉ b.seen ∧ (b.submit order).2.remainingQuantity = some order.quantity ∧
      (b.submit order).1.remove order.orderId = b.markSeen order.orderId := by
  have htrans := b.submit_transition order
  simp only [step] at htrans
  generalize b.submit order = r at haccepted hnone htrans
  obtain ⟨book, result⟩ := r
  cases htrans with
  | invalid _ hv => cases haccepted
  | duplicate _ hv hs => cases haccepted
  | limit _ price ht hp hs t ht' =>
    subst ht'
    obtain ⟨hbook, hrest⟩ := take_untaken hnone
    have habsent := (valid.absent hs).markSeen order.orderId
    refine ⟨hs, ?_, ?_⟩
    · simp only [hrest, Quantity.fromUnits_units]
    · dsimp only
      rw [hbook]
      exact remove_post habsent (valid.markSeen order.orderId).sorted _ _ _ _
  | market _ ht hp hs t ht' =>
    rw [hlimit] at ht
    cases ht

end PriorityBook

/-! ## Two runs -/

namespace OrderBook

/-- A book with an order, and the book of the same run without it. -/
structure Without (x : OrderId) (a : ActiveOrder) (b b' : OrderBook) : Prop where
  inv : b.Inv
  inv' : b'.Inv
  view : b.view.remove x = b'.view.markSeen x
  active : b.active x = some a
  unseen : x ∉ b'.seenOrderIds

/-- Steps that neither name the order nor trade with it keep the two books together. -/
theorem Without.step {x : OrderId} {a : ActiveOrder} {b b' : OrderBook} (h : Without x a b b')
    {c : Command} (hid : c.orderId ≠ x) (hparty : x ∉ (b.step c).2.restingIds) :
    Without x a (b.step c).1 (b'.step c).1 ∧ (b.step c).2 = (b'.step c).2 := by
  obtain ⟨hinv, hview, hresult⟩ := step_spec h.inv c
  obtain ⟨hinv', hview', hresult'⟩ := step_spec h.inv' c
  have hremove := PriorityBook.step_remove x h.inv.valid hid (hresult ▸ hparty)
  have hmark := b'.view.step_markSeen x hid
  rw [h.view, hmark, Prod.mk.injEq] at hremove
  refine ⟨⟨hinv, hinv', ?_, ?_, ?_⟩, ?_⟩
  · rw [hview, hview']
    exact hremove.1.symm
  · rw [← h.active]
    exact (h.inv.step_effect c).others x (Ne.symm hid) hparty
  · intro hmem
    have hseen : x ∈ (b'.step c).1.view.seen := hmem
    rw [hview'] at hseen
    exact (PriorityBook.mem_seen_step hseen).elim h.unseen (Ne.symm hid)
  · rw [hresult, hresult']
    exact hremove.2.symm

theorem Without.run {x : OrderId} {a : ActiveOrder} {b b' : OrderBook} (h : Without x a b b')
    {cs : List Command} (hids : ∀ c ∈ cs, c.orderId ≠ x)
    (hparty : ∀ r ∈ Transducer.outputs OrderBook.step b cs, x ∉ r.restingIds) :
    Without x a (Transducer.run OrderBook.step b cs) (Transducer.run OrderBook.step b' cs) ∧
      Transducer.outputs OrderBook.step b cs = Transducer.outputs OrderBook.step b' cs := by
  induction cs generalizing b b' with
  | nil => exact ⟨h, rfl⟩
  | cons c cs ih =>
    obtain ⟨hid, hids⟩ := List.forall_mem_cons.mp hids
    obtain ⟨hfirst, hparty⟩ := List.forall_mem_cons.mp hparty
    obtain ⟨hnext, hresult⟩ := h.step hid hfirst
    obtain ⟨hrun, hresults⟩ := ih hnext hids hparty
    refine ⟨hrun, ?_⟩
    rw [Transducer.outputs_cons, Transducer.outputs_cons, hresult, hresults]

/-- The order that starts to rest. -/
theorem without_start {b : OrderBook} (inv : b.Inv) {order : NewOrder} (hlimit : order.type = .limit)
    (haccepted : (b.submit order).2.rejection = none) (hnone : (b.submit order).2.executions = []) :
    ∃ a, a.remainingQuantity = order.quantity ∧
      Without order.orderId a (b.submit order).1 b := by
  obtain ⟨hinv, hview, hresult⟩ := submit_spec inv order
  have hreports := (inv.step_effect (.submit order)).accepted (by
    simp [OrderBook.step, Result.accepted, haccepted])
  have hremaining : (b.submit order).2.remainingQuantity =
      ((b.submit order).1.active order.orderId).map ActiveOrder.remainingQuantity := hreports.2
  rw [hresult] at haccepted hnone hremaining
  obtain ⟨hunseen, hquantity, hremoved⟩ :=
    PriorityBook.submit_untaken inv.valid hlimit haccepted hnone
  rw [hquantity] at hremaining
  obtain ⟨a, ha, hunits⟩ := Option.map_eq_some_iff.mp hremaining.symm
  exact ⟨a, hunits, hinv, inv, hview ▸ hremoved, ha, hunseen⟩

/-! ## Equal but for addresses -/

/-- The levels of a side without the addresses of their nodes. -/
def contents (ls : Levels) : List (Price × (UInt64 × List RestingOrder)) :=
  ls.map fun e => (e.1, (e.2.totalUnits, e.2.orders.map Node.order))

/-- What the index has for an id, with the order that its iterator points to. -/
def resolve (b : OrderBook) (id : OrderId) : Option (Side × Price × Option RestingOrder) :=
  (b.restingOrders.lookup id).map fun loc => (loc.side, loc.price, b.deref loc.it)

/-- Two books hold the same orders in the same queues, with the same totals, index and counter.
Iterators are compared by what they point to, since the nodes of two books have different
addresses. -/
structure SameResting (b b' : OrderBook) : Prop where
  bids : contents b.bids = contents b'.bids
  asks : contents b.asks = contents b'.asks
  index : ∀ id, b.resolve id = b'.resolve id
  count : b.restingOrderCount = b'.restingOrderCount

theorem contents_congr {b b' : OrderBook} (inv : b.Inv) (inv' : b'.Inv) {side : Side}
    (h : b.view.orders side = b'.view.orders side) :
    contents (b.levels side) = contents (b'.levels side) := by
  have hsorted : ∀ {b : OrderBook}, b.Inv → OrderedMap.Sorted side.before (contents (b.levels side)) :=
    fun inv => List.pairwise_map.mpr (inv.levels side).sorted
  refine (hsorted inv).ext (hsorted inv') fun price => ?_
  simp only [contents, OrderedMap.find_map (fun _ (level : PriceLevel) =>
    (level.totalUnits, level.orders.map Node.order))]
  rw [find_level inv, find_level inv', h]

theorem resolve_eq {b : OrderBook} (inv : b.Inv) (id : OrderId) :
    b.resolve id = (b.view.find id).map fun x => (x.1, x.2.1, some x.2.2) := by
  rw [resolve]
  cases hl : b.restingOrders.lookup id with
  | none => rw [inv.find_none hl, Option.map_none, Option.map_none]
  | some loc =>
    obtain ⟨order, hd, hf⟩ := inv.find_some hl
    rw [hf, Option.map_some, Option.map_some, hd]

/-- Books that stand for the same queues have the same resting state. -/
theorem sameResting_of_orders {b b' : OrderBook} (inv : b.Inv) (inv' : b'.Inv)
    (h : ∀ side, b.view.orders side = b'.view.orders side) : SameResting b b' := by
  have hfind : ∀ id, b.view.find id = b'.view.find id := by
    intro id
    have hbids : b.view.bids = b'.view.bids := h .buy
    have hasks : b.view.asks = b'.view.asks := h .sell
    rw [PriorityBook.find, PriorityBook.find, hbids, hasks]
  refine ⟨contents_congr inv inv' (h .buy), contents_congr inv inv' (h .sell), ?_, ?_⟩
  · intro id
    rw [resolve_eq inv, resolve_eq inv', hfind]
  · rw [restingOrderCount_eq inv, restingOrderCount_eq inv', h, h]

theorem sameResting {b b' : OrderBook} (inv : b.Inv) (inv' : b'.Inv) {x : OrderId}
    (h : b.view = b'.view.markSeen x) : SameResting b b' :=
  sameResting_of_orders inv inv' fun side => by rw [h, PriorityBook.orders_markSeen]

/-- A limit order that is accepted without an execution, is in none of the executions that
follow and is cancelled: the commands in between return what they return without it, the
cancel reports its whole quantity, and only its id in the set of seen ids is left of it. -/
theorem withdrawn_untouched (commands cs : List Command) (order : NewOrder) (cancelOrder : CancelOrder)
    (hlimit : order.type = .limit)
    (haccepted : ((run commands).submit order).2.rejection = none)
    (hnone : ((run commands).submit order).2.executions = [])
    (hids : ∀ c ∈ cs, c.orderId ≠ order.orderId)
    (hparty : ∀ r ∈ Transducer.outputs step ((run commands).submit order).1 cs,
      ∀ exec ∈ r.executions,
        exec.restingOrderId ≠ order.orderId ∧ exec.incomingOrderId ≠ order.orderId)
    (hcancel : cancelOrder.orderId = order.orderId) :
    Transducer.outputs step ((run commands).submit order).1 cs =
      Transducer.outputs step (run commands) cs ∧
    ((Transducer.run step ((run commands).submit order).1 cs).cancel cancelOrder).2 =
      ⟨order.orderId, some order.quantity, none⟩ ∧
    SameResting ((Transducer.run step ((run commands).submit order).1 cs).cancel cancelOrder).1
      (Transducer.run step (run commands) cs) ∧
    order.orderId ∉ (Transducer.run step (run commands) cs).seenOrderIds ∧
    ((Transducer.run step ((run commands).submit order).1 cs).cancel cancelOrder).1.seenOrderIds =
      insert order.orderId (Transducer.run step (run commands) cs).seenOrderIds := by
  obtain ⟨a, hquantity, hstart⟩ := without_start (run_inv commands) hlimit haccepted hnone
  have hresting : ∀ r ∈ Transducer.outputs step ((run commands).submit order).1 cs,
      order.orderId ∉ r.restingIds := by
    intro r hr hmem
    obtain ⟨exec, hexec, he⟩ := List.mem_map.mp hmem
    exact (hparty r hr exec hexec).1 he
  obtain ⟨hrun, hresults⟩ := hstart.run hids hresting
  generalize Transducer.run step ((run commands).submit order).1 cs = b at hrun
  generalize Transducer.run step (run commands) cs = b' at hrun
  obtain ⟨hinv, hview, hresult⟩ := cancel_spec hrun.inv cancelOrder
  have hactive := hrun.active
  rw [hrun.inv.active_eq] at hactive
  obtain ⟨⟨side, e⟩, hf, hentry⟩ := Option.map_eq_some_iff.mp hactive
  have hunits : e.2.remainingQuantity = order.quantity := by
    rw [← hquantity, ← hentry]
    rfl
  have hcancelled : b.view.cancel cancelOrder =
      (b.view.remove order.orderId, ⟨order.orderId, some order.quantity, none⟩) := by
    simp only [PriorityBook.cancel, hcancel, hf, hunits]
  rw [hcancelled] at hview hresult
  have hsame : (b.cancel cancelOrder).1.view = b'.view.markSeen order.orderId :=
    hview.trans hrun.view
  refine ⟨hresults, hresult, sameResting hinv hrun.inv' hsame, hrun.unseen, ?_⟩
  exact congrArg PriorityBook.seen hsame

/-- A sale that is partly taken, replaced and joined by another one. -/
def tradesBefore : List Command :=
  [.submit ⟨SequenceNumber.of 1, OrderId.of 1, .sell, .limit, Quantity.of 9, some (Price.of 100)⟩]

def tradesAround : List Command :=
  [.submit ⟨SequenceNumber.of 3, OrderId.of 3, .buy, .limit, Quantity.of 4, some (Price.of 101)⟩,
    .submit ⟨SequenceNumber.of 4, OrderId.of 4, .sell, .limit, Quantity.of 2, some (Price.of 100)⟩,
    .replace ⟨SequenceNumber.of 5, OrderId.of 1, Quantity.of 6, Price.of 101⟩]

/-- A sale at the price of the first one, which waits behind it. -/
def untouchedSale : NewOrder :=
  ⟨SequenceNumber.of 2, OrderId.of 2, .sell, .limit, Quantity.of 7, some (Price.of 100)⟩

theorem untouchedSale_withdrawn :
    Transducer.outputs step ((run tradesBefore).submit untouchedSale).1 tradesAround =
      Transducer.outputs step (run tradesBefore) tradesAround ∧
    SameResting ((Transducer.run step ((run tradesBefore).submit untouchedSale).1 tradesAround).cancel
        ⟨SequenceNumber.of 6, OrderId.of 2⟩).1
      (Transducer.run step (run tradesBefore) tradesAround) :=
  have h := withdrawn_untouched tradesBefore tradesAround untouchedSale
    ⟨SequenceNumber.of 6, OrderId.of 2⟩ rfl (by decide +kernel) (by decide +kernel)
    (by decide +kernel) (by decide +kernel) (by decide +kernel)
  ⟨h.1, h.2.2.1⟩

end OrderBook

end LowLatencyExchange
