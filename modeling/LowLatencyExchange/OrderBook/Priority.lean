import LowLatencyExchange.OrderBook.Basic
import LowLatencyExchange.Library.GreedyFill
import LowLatencyExchange.Library.UniqueKeys
import Mathlib.Data.List.Sort
import Mathlib.Tactic

/-!
# Price-time priority, abstractly

A `PriorityBook` is what an order book is for: two lists of resting orders, best price
first and oldest first within a price, and the set of ids ever accepted. There are no
levels, totals, index, counter or iterators. An incoming order fills greedily along the
contra list, a resting order goes behind every order whose price is at least as good, and
a removal is a filter by id.

`OrderBook` is shown to refine this model step by step; the properties of whole runs are
then proved here.
-/
namespace LowLatencyExchange

/-- A resting order with the price it rests at. -/
abbrev Entry := Price × RestingOrder

namespace Entry

def id (e : Entry) : OrderId := e.2.orderId
def units (e : Entry) : Nat := e.2.units

end Entry

/-- What remains of an order when `n` of its units are executed. -/
def RestingOrder.cut (order : RestingOrder) (n : Nat) : RestingOrder :=
  if h : n < order.remainingQuantity.units then
    { order with remainingQuantity :=
        ⟨order.remainingQuantity.units - n, by omega, by have := order.remainingQuantity.lt; omega⟩ }
  else order

@[simp] theorem RestingOrder.cut_orderId (order : RestingOrder) (n : Nat) :
    (order.cut n).orderId = order.orderId := by
  unfold RestingOrder.cut
  split_ifs <;> rfl

@[simp] theorem RestingOrder.cut_sequence (order : RestingOrder) (n : Nat) :
    (order.cut n).sequence = order.sequence := by
  unfold RestingOrder.cut
  split_ifs <;> rfl

theorem RestingOrder.cut_units {order : RestingOrder} {n : Nat} (h : n < order.units) :
    (order.cut n).units = order.units - n := by
  unfold RestingOrder.units at h
  simp [RestingOrder.cut, RestingOrder.units, h]

def Entry.cut (e : Entry) (n : Nat) : Entry := (e.1, e.2.cut n)

@[simp] theorem Entry.cut_fst (e : Entry) (n : Nat) : (e.cut n).1 = e.1 := rfl
@[simp] theorem Entry.cut_id (e : Entry) (n : Nat) : (e.cut n).id = e.id := by
  simp [Entry.cut, Entry.id]

theorem Entry.units_pos (e : Entry) : 0 < e.units := e.2.remainingQuantity.pos

theorem Entry.cut_units {e : Entry} {n : Nat} (h : n < e.units) : (e.cut n).units = e.units - n :=
  RestingOrder.cut_units h

structure PriorityBook where
  bids : List Entry
  asks : List Entry
  seen : Finset OrderId
  deriving DecidableEq

namespace PriorityBook

def empty : PriorityBook := ⟨[], [], ∅⟩

def orders (b : PriorityBook) : Side → List Entry
  | .buy => b.bids
  | .sell => b.asks

def setOrders (b : PriorityBook) (side : Side) (es : List Entry) : PriorityBook :=
  match side with
  | .buy => { b with bids := es }
  | .sell => { b with asks := es }

@[simp] theorem orders_setOrders (b : PriorityBook) (side : Side) (es : List Entry) :
    (b.setOrders side es).orders side = es := by cases side <;> rfl

@[simp] theorem orders_setOrders_contra (b : PriorityBook) (side : Side) (es : List Entry) :
    (b.setOrders side.contra es).orders side = b.orders side := by cases side <;> rfl

@[simp] theorem orders_contra_setOrders (b : PriorityBook) (side : Side) (es : List Entry) :
    (b.setOrders side es).orders side.contra = b.orders side.contra := by cases side <;> rfl

@[simp] theorem seen_setOrders (b : PriorityBook) (side : Side) (es : List Entry) :
    (b.setOrders side es).seen = b.seen := by cases side <;> rfl

/-- Behind every order whose price is at least as good. -/
def enqueue (side : Side) (e : Entry) (es : List Entry) : List Entry :=
  es.orderedInsert (fun x y => side.before x.1 y.1) e

/-- The greedy fill of `q` units along one side's list. -/
def fill (eligible : Price → Bool) (es : List Entry) (q : Nat) : GreedyFill.Outcome Entry :=
  GreedyFill.fill (fun e => eligible e.1) Entry.units Entry.cut es q

/-- One execution per order touched, at that order's price. The units of a fill always make
a quantity. -/
def executionOf (incoming : OrderId) (x : Entry × Nat) : Execution :=
  ⟨x.1.id, incoming, x.1.1, (Quantity.fromUnits x.2).getD x.1.2.remainingQuantity⟩

structure Taken where
  book : PriorityBook
  rest : Nat
  executions : List Execution

/-- Take liquidity from the contra side. -/
def take (b : PriorityBook) (incoming : OrderId) (side : Side) (type : OrderType)
    (limitPrice : Option Price) (q : Nat) : Taken :=
  let o := fill (OrderBook.crosses side type limitPrice) (b.orders side.contra) q
  ⟨b.setOrders side.contra o.left, o.rest, (o.fills Entry.units).map (executionOf incoming)⟩

/-- Leave units on the book, if there are any. -/
def post (b : PriorityBook) (id : OrderId) (sequence : SequenceNumber) (side : Side)
    (price : Price) (q : Nat) : PriorityBook :=
  match Quantity.fromUnits q with
  | some quantity => b.setOrders side (enqueue side (price, ⟨id, sequence, quantity⟩) (b.orders side))
  | none => b

def remove (b : PriorityBook) (id : OrderId) : PriorityBook :=
  { b with bids := b.bids.filter (fun e => e.id ≠ id), asks := b.asks.filter (fun e => e.id ≠ id) }

/-- The resting order with an id, and the side it rests on. -/
def find (b : PriorityBook) (id : OrderId) : Option (Side × Entry) :=
  match b.bids.find? (fun e => e.id = id) with
  | some e => some (.buy, e)
  | none => (b.asks.find? (fun e => e.id = id)).map (Prod.mk .sell)

def setQuantity (id : OrderId) (quantity : Quantity) (e : Entry) : Entry :=
  if e.id = id then (e.1, { e.2 with remainingQuantity := quantity }) else e

def reduce (b : PriorityBook) (id : OrderId) (quantity : Quantity) : PriorityBook :=
  { b with bids := b.bids.map (setQuantity id quantity),
           asks := b.asks.map (setQuantity id quantity) }

def markSeen (b : PriorityBook) (id : OrderId) : PriorityBook := { b with seen := insert id b.seen }

def submit (b : PriorityBook) (order : NewOrder) : PriorityBook × SubmitResult :=
  if (validate order).isSome then (b, ⟨[], some .invalidOrder, none⟩)
  else if order.orderId ∈ b.seen then (b, ⟨[], some .duplicateOrderId, none⟩)
  else
    let t := (b.markSeen order.orderId).take order.orderId order.side order.type
      order.limitPrice order.quantity.units
    match order.type, order.limitPrice with
    | .limit, some price =>
      (t.book.post order.orderId order.sequence order.side price t.rest,
        ⟨t.executions, none, Quantity.fromUnits t.rest⟩)
    | _, _ => (t.book, ⟨t.executions, none, none⟩)

def cancel (b : PriorityBook) (command : CancelOrder) : PriorityBook × CancelResult :=
  match b.find command.orderId with
  | none => (b, ⟨command.orderId, none, some .orderNotFound⟩)
  | some (_, e) =>
    (b.remove command.orderId, ⟨command.orderId, some e.2.remainingQuantity, none⟩)

def replace (b : PriorityBook) (command : ReplaceOrder) : PriorityBook × ReplaceResult :=
  match b.find command.orderId with
  | none => (b, ⟨command.orderId, [], none, some .orderNotFound⟩)
  | some (side, e) =>
    if command.newPrice = e.1 ∧ command.newQuantity.units ≤ e.units then
      (b.reduce command.orderId command.newQuantity,
        ⟨command.orderId, [], some command.newQuantity, none⟩)
    else
      let t := (b.remove command.orderId).take command.orderId side .limit
        (some command.newPrice) command.newQuantity.units
      (t.book.post command.orderId command.sequence side command.newPrice t.rest,
        ⟨command.orderId, t.executions, Quantity.fromUnits t.rest, none⟩)

def step (b : PriorityBook) : Command → PriorityBook × Result
  | .submit order => ((b.submit order).1, .submit (b.submit order).2)
  | .cancel command => ((b.cancel command).1, .cancel (b.cancel command).2)
  | .replace command => ((b.replace command).1, .replace (b.replace command).2)

def run (commands : List Command) : PriorityBook := Transducer.run step empty commands
def results (commands : List Command) : List Result := Transducer.outputs step empty commands

@[simp] theorem orders_markSeen (b : PriorityBook) (id : OrderId) (side : Side) :
    (b.markSeen id).orders side = b.orders side := by cases side <;> rfl

@[simp] theorem orders_remove (b : PriorityBook) (id : OrderId) (side : Side) :
    (b.remove id).orders side = (b.orders side).filter (fun e => e.id ≠ id) := by
  cases side <;> rfl

@[simp] theorem orders_reduce (b : PriorityBook) (id : OrderId) (quantity : Quantity)
    (side : Side) :
    (b.reduce id quantity).orders side = (b.orders side).map (setQuantity id quantity) := by
  cases side <;> rfl

@[simp] theorem setQuantity_id (id : OrderId) (quantity : Quantity) (e : Entry) :
    (setQuantity id quantity e).id = e.id := by
  unfold setQuantity
  split_ifs <;> rfl

@[simp] theorem setQuantity_fst (id : OrderId) (quantity : Quantity) (e : Entry) :
    (setQuantity id quantity e).1 = e.1 := by
  unfold setQuantity
  split_ifs <;> rfl

/-- What one command can do, with the guard of each path. -/
inductive Transition (b : PriorityBook) : Command → PriorityBook × Result → Prop
  | invalid (order : NewOrder) (hv : validate order ≠ none) :
      Transition b (.submit order) (b, .submit ⟨[], some .invalidOrder, none⟩)
  | duplicate (order : NewOrder) (hv : validate order = none) (hs : order.orderId ∈ b.seen) :
      Transition b (.submit order) (b, .submit ⟨[], some .duplicateOrderId, none⟩)
  | limit (order : NewOrder) (price : Price) (ht : order.type = .limit)
      (hp : order.limitPrice = some price) (hs : order.orderId ∉ b.seen) (t : Taken)
      (h : t = (b.markSeen order.orderId).take order.orderId order.side .limit (some price)
        order.quantity.units) :
      Transition b (.submit order)
        (t.book.post order.orderId order.sequence order.side price t.rest,
          .submit ⟨t.executions, none, Quantity.fromUnits t.rest⟩)
  | market (order : NewOrder) (ht : order.type = .market) (hp : order.limitPrice = none)
      (hs : order.orderId ∉ b.seen) (t : Taken)
      (h : t = (b.markSeen order.orderId).take order.orderId order.side .market none
        order.quantity.units) :
      Transition b (.submit order) (t.book, .submit ⟨t.executions, none, none⟩)
  | cancelMissing (command : CancelOrder) (hf : b.find command.orderId = none) :
      Transition b (.cancel command) (b, .cancel ⟨command.orderId, none, some .orderNotFound⟩)
  | cancelled (command : CancelOrder) (side : Side) (e : Entry)
      (hf : b.find command.orderId = some (side, e)) :
      Transition b (.cancel command)
        (b.remove command.orderId, .cancel ⟨command.orderId, some e.2.remainingQuantity, none⟩)
  | replaceMissing (command : ReplaceOrder) (hf : b.find command.orderId = none) :
      Transition b (.replace command)
        (b, .replace ⟨command.orderId, [], none, some .orderNotFound⟩)
  | reduced (command : ReplaceOrder) (side : Side) (e : Entry)
      (hf : b.find command.orderId = some (side, e))
      (hc : command.newPrice = e.1 ∧ command.newQuantity.units ≤ e.units) :
      Transition b (.replace command)
        (b.reduce command.orderId command.newQuantity,
          .replace ⟨command.orderId, [], some command.newQuantity, none⟩)
  | requeued (command : ReplaceOrder) (side : Side) (e : Entry)
      (hf : b.find command.orderId = some (side, e))
      (hc : ¬ (command.newPrice = e.1 ∧ command.newQuantity.units ≤ e.units)) (t : Taken)
      (h : t = (b.remove command.orderId).take command.orderId side .limit
        (some command.newPrice) command.newQuantity.units) :
      Transition b (.replace command)
        (t.book.post command.orderId command.sequence side command.newPrice t.rest,
          .replace ⟨command.orderId, t.executions, Quantity.fromUnits t.rest, none⟩)

theorem submit_transition (b : PriorityBook) (order : NewOrder) :
    b.Transition (.submit order) (b.step (.submit order)) := by
  cases hv : validate order with
  | some e =>
    have : (b.step (.submit order)) = (b, .submit ⟨[], some .invalidOrder, none⟩) := by
      simp [step, submit, hv]
    rw [this]
    exact .invalid order (by simp [hv])
  | none =>
    by_cases hs : order.orderId ∈ b.seen
    · have : (b.step (.submit order)) = (b, .submit ⟨[], some .duplicateOrderId, none⟩) := by
        simp [step, submit, hv, hs]
      rw [this]
      exact .duplicate order hv hs
    · have hvalid := (validate_eq_none order).mp hv
      cases ht : order.type with
      | market =>
        have hp : order.limitPrice = none := by
          rw [ht] at hvalid
          simpa using hvalid
        have := Transition.market order ht hp hs _ rfl
        simpa [step, submit, hv, hs, ht, hp] using this
      | limit =>
        obtain ⟨price, hp⟩ := Option.isSome_iff_exists.mp (hvalid.mp ht)
        have := Transition.limit order price ht hp hs _ rfl
        simpa [step, submit, hv, hs, ht, hp] using this

theorem step_transition (b : PriorityBook) (c : Command) : b.Transition c (b.step c) := by
  cases c with
  | submit order => exact b.submit_transition order
  | cancel command =>
    simp only [step, cancel]
    cases hf : b.find command.orderId with
    | none => exact .cancelMissing command hf
    | some x => exact .cancelled command x.1 x.2 hf
  | replace command =>
    simp only [step, replace]
    cases hf : b.find command.orderId with
    | none => exact .replaceMissing command hf
    | some x =>
      dsimp only
      split_ifs with hc
      · exact .reduced command x.1 x.2 hf hc
      · exact .requeued command x.1 x.2 hf hc _ rfl

/-! ## Lookup by id -/

/-- No id rests twice. -/
def UniqueIds (b : PriorityBook) : Prop := ((b.bids ++ b.asks).map Entry.id).Nodup

theorem UniqueIds.side {b : PriorityBook} (h : b.UniqueIds) (side : Side) :
    ((b.orders side).map Entry.id).Nodup := by
  rw [UniqueIds, List.map_append] at h
  cases side
  · exact h.of_append_left
  · exact h.of_append_right

theorem UniqueIds.contra_notMem {b : PriorityBook} (h : b.UniqueIds) {side : Side} {e : Entry}
    (he : e ∈ b.orders side) : e.id ∉ (b.orders side.contra).map Entry.id := by
  rw [UniqueIds, List.map_append] at h
  have hd := List.disjoint_of_nodup_append h
  cases side
  · exact fun hm => hd (List.mem_map_of_mem he) hm
  · exact fun hm => hd hm (List.mem_map_of_mem he)

theorem find_eq_none {b : PriorityBook} {id : OrderId} :
    b.find id = none ↔ ∀ side, id ∉ (b.orders side).map Entry.id := by
  have hb : b.bids.find? (fun e => e.id = id) = none ↔ id ∉ b.bids.map Entry.id :=
    UniqueKeys.find_eq_none
  have ha : b.asks.find? (fun e => e.id = id) = none ↔ id ∉ b.asks.map Entry.id :=
    UniqueKeys.find_eq_none
  have hside : (∀ side, id ∉ (b.orders side).map Entry.id) ↔
      id ∉ b.bids.map Entry.id ∧ id ∉ b.asks.map Entry.id :=
    ⟨fun h => ⟨h .buy, h .sell⟩, fun h side => by cases side <;> simp only [orders, h, not_false_eq_true]⟩
  rw [hside, ← hb, ← ha, find]
  cases b.bids.find? (fun e => e.id = id) <;> simp

theorem UniqueIds.find_eq_some {b : PriorityBook} (h : b.UniqueIds) {id : OrderId} {side : Side}
    {e : Entry} : b.find id = some (side, e) ↔ e ∈ b.orders side ∧ e.id = id := by
  have hb := @UniqueKeys.find_eq_some _ _ _ _ _ (h.side .buy) id e
  have ha := @UniqueKeys.find_eq_some _ _ _ _ _ (h.side .sell) id e
  simp only [orders] at ha hb
  rw [find]
  cases side with
  | buy =>
    rw [orders, ← hb]
    cases b.bids.find? (fun e => e.id = id) <;> simp
  | sell =>
    rw [orders, ← ha]
    cases hf : b.bids.find? (fun e => e.id = id) with
    | none => simp
    | some x =>
      obtain ⟨hx, hid⟩ := (UniqueKeys.find_eq_some (h.side .buy)).mp hf
      have hn := h.contra_notMem hx
      rw [hid] at hn
      simp only [Option.some.injEq, Prod.mk.injEq, reduceCtorEq, false_and, false_iff]
      intro hs
      obtain ⟨he, hie⟩ := ha.mp hs
      exact hn (List.mem_map.mpr ⟨e, he, hie⟩)

/-! ## Taking liquidity -/

section Fill

variable {eligible : Price → Bool} {e : Entry} {es : List Entry} {q : Nat}

@[simp] theorem fill_nil : fill eligible [] q = ⟨[], none, [], q⟩ := rfl

theorem fill_cons_full (hq : 0 < q) (he : eligible e.1) (hu : e.units ≤ q) :
    fill eligible (e :: es) q =
      { fill eligible es (q - e.units) with gone := e :: (fill eligible es (q - e.units)).gone } :=
  @GreedyFill.fill_cons_full _ (fun e : Entry => eligible e.1) Entry.units Entry.cut e q hq he hu es

theorem fill_cons_cut (hq : 0 < q) (he : eligible e.1) (hu : q < e.units) :
    fill eligible (e :: es) q = ⟨[], some (e, q), e.cut q :: es, 0⟩ :=
  @GreedyFill.fill_cons_cut _ (fun e : Entry => eligible e.1) Entry.units Entry.cut e q hq he hu es

theorem fill_cons_stop (h : ¬ (0 < q ∧ eligible e.1)) :
    fill eligible (e :: es) q = ⟨[], none, e :: es, q⟩ := by
  simp [fill, GreedyFill.fill, h]

variable (eligible)

/-- A fill takes from each kind of order what it holds less afterwards. -/
theorem fill_conserves (kind : Entry → Bool) (hk : ∀ e n, kind (Entry.cut e n) = kind e)
    (es : List Entry) (q : Nat) :
    GreedyFill.total Entry.units (es.filter kind) =
      GreedyFill.total Entry.units ((fill eligible es q).left.filter kind) +
        ((((fill eligible es q).fills Entry.units).filter (fun x => kind x.1)).map
          Prod.snd).sum :=
  GreedyFill.fill_conserves _ _ _ hk (fun _ _ => Entry.cut_units) es q

end Fill

/-- Whatever cutting respects, such as the id: a list has it from the orders filled and the
orders left, in order. -/
theorem fill_map_append {B : Type*} (f : Entry → B) (hf : ∀ e n, f (Entry.cut e n) = f e)
    (eligible : Price → Bool) (es : List Entry) (q : Nat) :
    es.map f = (fill eligible es q).gone.map f ++ (fill eligible es q).left.map f := by
  unfold fill
  rcases GreedyFill.fill_split (fun e => eligible e.1) Entry.units Entry.cut es q with
    ⟨tail, _, hs, hl⟩ | ⟨a, n, tail, _, hs, hl, _⟩
  · rw [hl, ← List.map_append, ← hs]
  · rw [hl]
    conv_lhs => rw [hs]
    simp [hf]

theorem fill_ids (eligible : Price → Bool) (es : List Entry) (q : Nat) :
    es.map Entry.id =
      (fill eligible es q).gone.map Entry.id ++ (fill eligible es q).left.map Entry.id :=
  fill_map_append Entry.id (fun e n => e.cut_id n) eligible es q

theorem crosses_limit {side : Side} {limit price : Price} :
    OrderBook.crosses side .limit (some limit) price = false ↔ side.before price limit := by
  cases side <;> simp [OrderBook.crosses, Side.before]

section Take

variable (b : PriorityBook) (incoming : OrderId) (side : Side) (type : OrderType)
  (limitPrice : Option Price) (q : Nat)

@[simp] theorem take_orders_own :
    (b.take incoming side type limitPrice q).book.orders side = b.orders side :=
  orders_setOrders_contra _ _ _

@[simp] theorem take_orders_contra :
    (b.take incoming side type limitPrice q).book.orders side.contra =
      (fill (OrderBook.crosses side type limitPrice) (b.orders side.contra) q).left :=
  orders_setOrders _ _ _

@[simp] theorem take_seen : (b.take incoming side type limitPrice q).book.seen = b.seen :=
  seen_setOrders _ _ _

/-- No id appears on the book by taking liquidity. -/
theorem take_ids {s : Side} {id : OrderId}
    (h : id ∈ ((b.take incoming side type limitPrice q).book.orders s).map Entry.id) :
    id ∈ (b.orders s).map Entry.id := by
  rcases Side.eq_or_eq_contra s side with rfl | rfl
  · rwa [take_orders_own] at h
  · rw [take_orders_contra] at h
    rw [fill_ids (OrderBook.crosses side type limitPrice) (b.orders side.contra) q]
    exact List.mem_append_right _ h

/-- Units of a limit order that are left over cross nothing that is left. -/
theorem take_uncrossed {price : Price}
    (sorted : ((b.take incoming side .limit (some price) q).book.orders side.contra).Pairwise
      (fun x y => ¬ side.contra.before y.1 x.1))
    (hrest : 0 < (b.take incoming side .limit (some price) q).rest) :
    ∀ e ∈ (b.take incoming side .limit (some price) q).book.orders side.contra,
      side.before e.1 price := by
  rw [take_orders_contra] at sorted ⊢
  have hhead := GreedyFill.fill_head_of_rest_pos
    (fun e : Entry => OrderBook.crosses side .limit (some price) e.1) Entry.units Entry.cut
    (b.orders side.contra) q hrest
  unfold fill at sorted ⊢
  generalize (GreedyFill.fill (fun e : Entry => OrderBook.crosses side .limit (some price) e.1)
    Entry.units Entry.cut (b.orders side.contra) q).left = es at sorted hhead ⊢
  cases es with
  | nil => simp
  | cons x es =>
    have hx : side.before x.1 price := crosses_limit.mp (hhead x rfl)
    intro e he
    rcases List.mem_cons.mp he with rfl | he
    · exact hx
    · have hle := (List.pairwise_cons.mp sorted).1 e he
      cases side
      · exact lt_of_lt_of_le hx (not_lt.mp hle)
      · exact lt_of_le_of_lt (not_lt.mp hle) hx

end Take

@[simp] theorem post_seen (b : PriorityBook) (id : OrderId) (sequence : SequenceNumber)
    (side : Side) (price : Price) (q : Nat) : (b.post id sequence side price q).seen = b.seen := by
  unfold post
  cases Quantity.fromUnits q
  · rfl
  · exact seen_setOrders _ _ _

end PriorityBook

end LowLatencyExchange
