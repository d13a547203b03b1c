import LowLatencyExchange.OrderBook.PriorityLaws
import LowLatencyExchange.OrderBook.Representation
import Mathlib.Tactic

/-!
# Conservation of volume

A ledger books what every command reports: units submitted, the change made by a replace,
units executed as the incoming and as the resting party, units cancelled and the remainder
a market order discards. It is kept for a set of parties, given by order id and side, so
that the account of one order and the account of one side are the same theorem.
-/
namespace LowLatencyExchange

/-- The parties a ledger is kept for. -/
abbrev Parties := OrderId → Side → Bool

@[ext] structure Ledger where
  submitted : Int
  replaced : Int
  executedIncoming : Int
  executedResting : Int
  cancelled : Int
  discarded : Int

namespace Ledger

def zero : Ledger := ⟨0, 0, 0, 0, 0, 0⟩

def add (x y : Ledger) : Ledger where
  submitted := x.submitted + y.submitted
  replaced := x.replaced + y.replaced
  executedIncoming := x.executedIncoming + y.executedIncoming
  executedResting := x.executedResting + y.executedResting
  cancelled := x.cancelled + y.cancelled
  discarded := x.discarded + y.discarded

def executed (x : Ledger) : Int := x.executedIncoming + x.executedResting

/-- What the booked volume leaves resting. -/
def resting (x : Ledger) : Int := x.submitted + x.replaced - x.executed - x.cancelled - x.discarded

theorem resting_add (x y : Ledger) : (x.add y).resting = x.resting + y.resting := by
  simp only [resting, add, executed]
  omega

end Ledger

/-- The units of the executions that satisfy a test. -/
def executedUnits (test : Execution → Bool) (executions : List Execution) : Nat :=
  ((executions.filter test).map (fun x => x.quantity.units)).sum

/-- Whether an order that rests belongs to the parties. -/
def heldBy (who : Parties) (held : OrderId → Option ActiveOrder) (id : OrderId) : Bool :=
  (held id).any fun a => who id a.side

/-- What one command and its result book, given the orders that rested before it. -/
def Ledger.entry (who : Parties) (held : OrderId → Option ActiveOrder) :
    Command × Result → Ledger
  | (.submit order, .submit result) =>
    if result.rejection.isNone then
      { submitted := if who order.orderId order.side then order.quantity.units else 0
        replaced := 0
        executedIncoming :=
          executedUnits (fun x => who x.incomingOrderId order.side) result.executions
        executedResting := executedUnits (fun x => heldBy who held x.restingOrderId) result.executions
        cancelled := 0
        discarded :=
          if order.type = .market ∧ who order.orderId order.side then
            order.quantity.units - (executedUnits (fun _ => true) result.executions : Int)
          else 0 }
    else .zero
  | (.cancel command, .cancel result) =>
    { Ledger.zero with
      cancelled :=
        if heldBy who held command.orderId then
          (result.cancelledQuantity.elim 0 Quantity.units : Nat)
        else 0 }
  | (.replace command, .replace result) =>
    match result.rejection, held command.orderId with
    | none, some a =>
      { submitted := 0
        replaced :=
          if who command.orderId a.side then
            (command.newQuantity.units : Int) - a.remainingQuantity.units
          else 0
        executedIncoming :=
          executedUnits (fun x => who x.incomingOrderId a.side) result.executions
        executedResting := executedUnits (fun x => heldBy who held x.restingOrderId) result.executions
        cancelled := 0
        discarded := 0 }
    | _, _ => .zero
  | _ => .zero

namespace PriorityBook

/-- The units the parties hold on the book. -/
def heldUnits (b : PriorityBook) (who : Parties) : Nat :=
  b.unitsOn .buy (fun e => who e.id .buy) + b.unitsOn .sell (fun e => who e.id .sell)

section Step

variable {b : PriorityBook} (who : Parties)

theorem heldUnits_eq (b : PriorityBook) (side : Side) :
    b.heldUnits who = b.unitsOn side (fun e => who e.id side) +
      b.unitsOn side.contra (fun e => who e.id side.contra) := by
  cases side
  · rfl
  · exact Nat.add_comm _ _

theorem executedUnits_fills (eligible : Price → Bool) (es : List Entry) (q : Nat)
    (incoming : OrderId) (test : Execution → Bool) :
    executedUnits test (((fill eligible es q).fills Entry.units).map (executionOf incoming)) =
      ((((fill eligible es q).fills Entry.units).filter
        (fun x => test (executionOf incoming x))).map Prod.snd).sum := by
  rw [executedUnits, List.filter_map, List.map_map]
  congr 1
  refine List.map_congr_left fun x hx => ?_
  obtain ⟨_, h0, hn⟩ := mem_fills (List.mem_of_mem_filter hx)
  exact executionOf_units h0 hn

/-- What a command takes and what it leaves over make up its quantity. -/
theorem take_executed (b : PriorityBook) (incoming : OrderId) (side : Side) (type : OrderType)
    (limitPrice : Option Price) (q : Nat) :
    executedUnits (fun _ => true) (b.take incoming side type limitPrice q).executions +
      (b.take incoming side type limitPrice q).rest = q := by
  have hsum := GreedyFill.fill_sum (fun e : Entry => OrderBook.crosses side type limitPrice e.1)
    Entry.units Entry.cut (b.orders side.contra) q
  have hunits := executedUnits_fills (OrderBook.crosses side type limitPrice)
    (b.orders side.contra) q incoming (fun _ => true)
  rw [List.filter_true] at hunits
  rw [take, hunits]
  exact hsum

/-- Every execution of a command names its order as the incoming party. -/
theorem executedUnits_incoming (b : PriorityBook) (incoming : OrderId) (side : Side)
    (type : OrderType) (limitPrice : Option Price) (q : Nat) (s : Side) :
    executedUnits (fun x => who x.incomingOrderId s)
        (b.take incoming side type limitPrice q).executions =
      if who incoming s then
        executedUnits (fun _ => true) (b.take incoming side type limitPrice q).executions
      else 0 := by
  rw [take, executedUnits_fills, executedUnits_fills]
  by_cases h : who incoming s <;> simp [executionOf, h]

/-- The resting parties hold on the contra side, before the command. -/
theorem heldBy_of_mem (valid : b.Valid) {side : Side} {e : Entry} (he : e ∈ b.orders side) :
    heldBy who b.active e.id = who e.id side := by
  have hf := valid.ids.find_eq_some.mpr ⟨he, rfl⟩
  simp [heldBy, active, hf, Entry.active]

theorem executedUnits_resting (valid : b.Valid) {b' : PriorityBook} (incoming : OrderId)
    (side : Side) (type : OrderType) (limitPrice : Option Price) (q : Nat)
    (hb : b'.orders side.contra = b.orders side.contra) :
    executedUnits (fun x => heldBy who b.active x.restingOrderId)
        (b'.take incoming side type limitPrice q).executions =
      ((((fill (OrderBook.crosses side type limitPrice) (b'.orders side.contra) q).fills
        Entry.units).filter (fun x => who x.1.id side.contra)).map Prod.snd).sum := by
  rw [take, executedUnits_fills]
  congr 2
  refine List.filter_congr fun x hx => ?_
  obtain ⟨hmem, _⟩ := mem_fills hx
  rw [hb] at hmem
  exact heldBy_of_mem who valid hmem

/-- The units taken from the resting parties are those they hold less afterwards. -/
theorem unitsOn_take_held (valid : b.Valid) {b' : PriorityBook} (incoming : OrderId) (side : Side)
    (type : OrderType) (limitPrice : Option Price) (q : Nat)
    (hb : b'.orders side.contra = b.orders side.contra) :
    b.unitsOn side.contra (fun e => who e.id side.contra) =
      (b'.take incoming side type limitPrice q).book.unitsOn side.contra
          (fun e => who e.id side.contra) +
        executedUnits (fun x => heldBy who b.active x.restingOrderId)
          (b'.take incoming side type limitPrice q).executions := by
  have hcontra := b'.unitsOn_take_contra side (fun e => who e.id side.contra)
    (fun _ _ => by rw [Entry.cut_id]) incoming type limitPrice q
  have hsame : b'.unitsOn side.contra (fun e => who e.id side.contra) =
      b.unitsOn side.contra (fun e => who e.id side.contra) := by
    rw [unitsOn, hb, unitsOn]
  rw [← hsame, hcontra, executedUnits_resting who valid incoming side type limitPrice q hb]

theorem heldUnits_post (b : PriorityBook) (id : OrderId) (sequence : SequenceNumber) (side : Side)
    (price : Price) {q : Nat} (hq : q < 2 ^ 64) :
    (b.post id sequence side price q).heldUnits who =
      b.heldUnits who + if who id side then q else 0 := by
  rw [post]
  rcases Nat.eq_zero_or_pos q with rfl | hpos
  · have : Quantity.fromUnits 0 = none := by simp [Quantity.fromUnits]
    simp [this]
  · have : Quantity.fromUnits q = some ⟨q, hpos, hq⟩ := dif_pos ⟨hpos, hq⟩
    rw [this]
    dsimp only
    rw [heldUnits_eq who _ side, heldUnits_eq who b side, unitsOn_enqueue,
      unitsOn_contra_setOrders]
    have hid : Entry.id (price, ⟨id, sequence, ⟨q, hpos, hq⟩⟩) = id := rfl
    have hunits : Entry.units (price, ⟨id, sequence, ⟨q, hpos, hq⟩⟩) = q := rfl
    rw [hid, hunits]
    omega

/-- Taking liquidity as `incoming` and resting the remainder, from a book that holds the
same on the contra side. -/
theorem heldUnits_take_post (valid : b.Valid) {b' : PriorityBook} (id : OrderId)
    (sequence : SequenceNumber) (side : Side) (price : Price) {q : Nat} (hq : q < 2 ^ 64)
    (hb : b'.orders side.contra = b.orders side.contra) {t : Taken}
    (ht : t = b'.take id side .limit (some price) q) :
    (t.book.post id sequence side price t.rest).heldUnits who +
        executedUnits (fun x => heldBy who b.active x.restingOrderId) t.executions =
      b'.heldUnits who + if who id side then t.rest else 0 := by
  have hrest : t.rest ≤ q := by
    have := b'.take_executed id side .limit (some price) q
    rw [← ht] at this
    omega
  have hheld := unitsOn_take_held who valid id side .limit (some price) q hb
  have hsame : b'.unitsOn side.contra (fun e => who e.id side.contra) =
      b.unitsOn side.contra (fun e => who e.id side.contra) := by
    rw [unitsOn, hb, unitsOn]
  have hown := b'.unitsOn_take_own side (fun e => who e.id side) id .limit (some price) q
  rw [← ht] at hheld hown
  rw [heldUnits_post who _ _ _ _ _ (by omega), heldUnits_eq who t.book side,
    heldUnits_eq who b' side, hown, hsame, hheld]
  omega

/-- One step changes what the parties hold by what it books for them. -/
theorem heldUnits_step (valid : b.Valid) (c : Command) :
    ((b.step c).1.heldUnits who : Int) =
      b.heldUnits who + (Ledger.entry who b.active (c, (b.step c).2)).resting := by
  have htrans := b.step_transition c
  generalize b.step c = r at htrans
  cases htrans with
  | invalid order hv => simp [Ledger.entry, Ledger.zero, Ledger.resting, Ledger.executed]
  | duplicate order hv hs => simp [Ledger.entry, Ledger.zero, Ledger.resting, Ledger.executed]
  | limit order price ht hp hs t ht' =>
    have hpost := heldUnits_take_post who valid order.orderId order.sequence order.side price
      order.quantity.lt (orders_markSeen b order.orderId order.side.contra) ht'
    have hsum := (b.markSeen order.orderId).take_executed order.orderId order.side .limit
      (some price) order.quantity.units
    have hin := executedUnits_incoming who (b.markSeen order.orderId) order.orderId order.side
      .limit (some price) order.quantity.units order.side
    rw [← ht'] at hsum hin
    have hmark : (b.markSeen order.orderId).heldUnits who = b.heldUnits who := by
      simp [heldUnits]
    simp only [Ledger.entry, Ledger.resting, Ledger.executed, Option.isNone_none, if_true, ht,
      reduceCtorEq, false_and, if_false, hin]
    split_ifs at hpost ⊢ <;> omega
  | market order ht hp hs t ht' =>
    have hheld := unitsOn_take_held who valid order.orderId order.side .market none
      order.quantity.units (orders_markSeen b order.orderId order.side.contra)
    have hown := (b.markSeen order.orderId).unitsOn_take_own order.side
      (fun e => who e.id order.side) order.orderId .market none order.quantity.units
    have hsum := (b.markSeen order.orderId).take_executed order.orderId order.side .market none
      order.quantity.units
    have hin := executedUnits_incoming who (b.markSeen order.orderId) order.orderId order.side
      .market none order.quantity.units order.side
    rw [← ht'] at hheld hown hsum hin
    rw [unitsOn_markSeen] at hown
    simp only [Ledger.entry, Ledger.resting, Ledger.executed, Option.isNone_none, if_true, ht,
      true_and, hin]
    rw [heldUnits_eq who t.book order.side, heldUnits_eq who b order.side, hown, hheld]
    split_ifs <;> omega
  | cancelMissing command hf =>
    simp [Ledger.entry, Ledger.zero, Ledger.resting, Ledger.executed]
  | cancelled command side e hf =>
    have hremove := valid.unitsOn_remove hf (fun e => who e.id side)
    have hcontra := valid.unitsOn_remove_contra hf (fun e => who e.id side.contra)
    obtain ⟨he, hid⟩ := valid.found hf
    have hheld := heldBy_of_mem who valid he
    rw [hid] at hheld hremove
    simp only [Ledger.entry, Ledger.zero, Ledger.resting, Ledger.executed, hheld,
      Option.elim_some]
    have hunits : e.2.remainingQuantity.units = e.units := rfl
    rw [heldUnits_eq who _ side, heldUnits_eq who b side, hcontra, hremove, hunits]
    split_ifs <;> omega
  | replaceMissing command hf =>
    simp [Ledger.entry, Ledger.zero, Ledger.resting, Ledger.executed]
  | reduced command side e hf hc =>
    have hremove := valid.unitsOn_remove hf (fun e => who e.id side)
    have hreduce := valid.unitsOn_reduce hf command.newQuantity (fun e => who e.id side)
    have hcontra := valid.unitsOn_reduce_contra hf command.newQuantity
      (fun e => who e.id side.contra)
    have hactive : b.active command.orderId = some (e.active side) := by simp [active, hf]
    rw [setQuantity_id, (valid.found hf).2] at hreduce
    rw [(valid.found hf).2] at hremove
    simp only [Ledger.entry, Ledger.resting, Ledger.executed, hactive, Entry.active,
      executedUnits, List.filter_nil, List.map_nil, List.sum_nil]
    have hunits : e.2.remainingQuantity.units = e.units := rfl
    rw [heldUnits_eq who _ side, heldUnits_eq who b side, hcontra, hreduce, hremove, hunits]
    split_ifs <;> omega
  | requeued command side e hf hc t ht =>
    have hremove := valid.unitsOn_remove hf (fun e => who e.id side)
    have hcontra := valid.unitsOn_remove_contra hf (fun e => who e.id side.contra)
    have hactive : b.active command.orderId = some (e.active side) := by simp [active, hf]
    have horders : (b.remove command.orderId).orders side.contra = b.orders side.contra := by
      rw [valid.remove_eq hf, orders_contra_setOrders]
    have hpost := heldUnits_take_post who valid command.orderId command.sequence side
      command.newPrice command.newQuantity.lt horders ht
    have hsum := (b.remove command.orderId).take_executed command.orderId side .limit
      (some command.newPrice) command.newQuantity.units
    have hin := executedUnits_incoming who (b.remove command.orderId) command.orderId side
      .limit (some command.newPrice) command.newQuantity.units side
    rw [← ht] at hsum hin
    rw [(valid.found hf).2] at hremove
    rw [heldUnits_eq who (b.remove _) side, hcontra] at hpost
    simp only [Ledger.entry, Ledger.resting, Ledger.executed, hactive, Entry.active, hin]
    have hunits : e.2.remainingQuantity.units = e.units := rfl
    rw [heldUnits_eq who b side, hremove, hunits]
    split_ifs at hpost ⊢ <;> omega

end Step

section Sides

variable {b : PriorityBook}

/-- The parties of one side. -/
def onSide (side : Side) : Parties := fun _ s => s = side

/-- The resting parties of the executions held on the contra side, before the command. -/
theorem executedUnits_held (who : Parties) (valid : b.Valid) {b' : PriorityBook}
    (incoming : OrderId) (side : Side) (type : OrderType) (limitPrice : Option Price) (q : Nat)
    (hb : b'.orders side.contra = b.orders side.contra) :
    executedUnits (fun x => heldBy who b.active x.restingOrderId)
        (b'.take incoming side type limitPrice q).executions =
      executedUnits (fun x => who x.restingOrderId side.contra)
        (b'.take incoming side type limitPrice q).executions := by
  rw [executedUnits_resting who valid incoming side type limitPrice q hb, take,
    executedUnits_fills]
  rfl

/-- What is booked as executed are the executions of the command, whose incoming party is on its
side and whose resting parties are on the other. -/
theorem entry_executions (valid : b.Valid) (c : Command) : ∃ side : Side, ∀ who,
    (Ledger.entry who b.active (c, (b.step c).2)).executedIncoming =
        executedUnits (fun x => who x.incomingOrderId side) (b.step c).2.executions ∧
      (Ledger.entry who b.active (c, (b.step c).2)).executedResting =
        executedUnits (fun x => who x.restingOrderId side.contra) (b.step c).2.executions := by
  have htrans := b.step_transition c
  generalize b.step c = r at htrans
  cases htrans with
  | limit order price ht hp hs t ht' =>
    refine ⟨order.side, fun who => ⟨rfl, ?_⟩⟩
    have hheld := executedUnits_held who valid order.orderId order.side .limit (some price)
      order.quantity.units (orders_markSeen b order.orderId order.side.contra)
    rw [← ht'] at hheld
    exact congrArg Nat.cast hheld
  | market order ht hp hs t ht' =>
    refine ⟨order.side, fun who => ⟨rfl, ?_⟩⟩
    have hheld := executedUnits_held who valid order.orderId order.side .market none
      order.quantity.units (orders_markSeen b order.orderId order.side.contra)
    rw [← ht'] at hheld
    exact congrArg Nat.cast hheld
  | reduced command side e hf hc =>
    have hactive : b.active command.orderId = some (e.active side) := by simp [active, hf]
    exact ⟨side, fun who => by simp [Ledger.entry, hactive, executedUnits, Result.executions]⟩
  | requeued command side e hf hc t ht =>
    have hactive : b.active command.orderId = some (e.active side) := by simp [active, hf]
    have horders : (b.remove command.orderId).orders side.contra = b.orders side.contra := by
      rw [valid.remove_eq hf, orders_contra_setOrders]
    refine ⟨side, fun who => ?_⟩
    have hheld := executedUnits_held who valid command.orderId side .limit
      (some command.newPrice) command.newQuantity.units horders
    rw [← ht] at hheld
    simp only [Ledger.entry, hactive, Result.executions]
    exact ⟨rfl, congrArg Nat.cast hheld⟩
  | _ => exact ⟨.buy, fun who => ⟨rfl, rfl⟩⟩

/-- Every execution has one party on each side. -/
theorem entry_executed_sides (valid : b.Valid) (c : Command) (s s' : Side) :
    (Ledger.entry (onSide s) b.active (c, (b.step c).2)).executed =
      (Ledger.entry (onSide s') b.active (c, (b.step c).2)).executed := by
  obtain ⟨side, hexecuted⟩ := entry_executions valid c
  rw [Ledger.executed, Ledger.executed, (hexecuted _).1, (hexecuted _).2, (hexecuted _).1,
    (hexecuted _).2]
  cases s <;> cases s' <;> cases side <;> simp [onSide, Side.contra, executedUnits]

/-- Nothing negative is cancelled or discarded. -/
theorem entry_nonneg (who : Parties) (b : PriorityBook) (c : Command) :
    0 ≤ (Ledger.entry who b.active (c, (b.step c).2)).cancelled ∧
      0 ≤ (Ledger.entry who b.active (c, (b.step c).2)).discarded := by
  have htrans := b.step_transition c
  generalize b.step c = r at htrans
  cases htrans with
  | invalid order hv => exact ⟨le_rfl, le_rfl⟩
  | duplicate order hv hs => exact ⟨le_rfl, le_rfl⟩
  | limit order price ht hp hs t ht' => simp [Ledger.entry, ht]
  | market order ht hp hs t ht' =>
    have hsum := (b.markSeen order.orderId).take_executed order.orderId order.side .market none
      order.quantity.units
    rw [← ht'] at hsum
    simp only [Ledger.entry, Option.isNone_none, if_true, ht, true_and]
    split_ifs <;> omega
  | cancelMissing command hf => simp [Ledger.entry, Ledger.zero]
  | cancelled command side e hf =>
    simp only [Ledger.entry, Ledger.zero]
    split_ifs <;> omega
  | replaceMissing command hf => exact ⟨le_rfl, le_rfl⟩
  | reduced command side e hf hc => simp [Ledger.entry, active, hf]
  | requeued command side e hf hc t ht => simp [Ledger.entry, active, hf]

/-- The parties of one order. -/
def onId (id : OrderId) : Parties := fun i _ => i = id

theorem heldUnits_onId (valid : b.Valid) (id : OrderId) :
    b.heldUnits (onId id) = (b.active id).elim 0 (fun a => a.remainingQuantity.units) := by
  have hnone : ∀ es : List Entry, id ∉ es.map Entry.id →
      GreedyFill.total Entry.units (es.filter (fun e => e.id = id)) = 0 := by
    intro es hes
    have : es.filter (fun e => e.id = id) = [] :=
      List.filter_eq_nil_iff.mpr fun e he hid =>
        hes (List.mem_map.mpr ⟨e, he, of_decide_eq_true hid⟩)
    rw [this, GreedyFill.total_nil]
  cases hf : b.find id with
  | none =>
    have habsent := find_eq_none.mp hf
    have hb := hnone b.bids (habsent .buy)
    have ha := hnone b.asks (habsent .sell)
    simpa [heldUnits, unitsOn, onId, active, hf, orders] using ⟨hb, ha⟩
  | some x =>
    obtain ⟨side, e⟩ := x
    have hown := valid.unitsOn_remove hf (fun e => e.id = id)
    have hrest := hnone _ (UniqueKeys.notMem_filter (l := b.orders side) (f := Entry.id) id)
    have hcontra := hnone _ (valid.contra_ids hf)
    rw [← orders_remove, ← unitsOn] at hrest
    rw [← unitsOn] at hcontra
    have hunits : e.2.remainingQuantity.units = e.units := rfl
    simp only [(valid.found hf).2, decide_true, if_true] at hown
    simp only [heldUnits_eq (onId id) b side, onId, active, hf, Option.map_some, Option.elim_some,
      Entry.active, hunits]
    omega

end Sides

end PriorityBook

namespace OrderBook

/-- The resting order with an id, read through its index entry. -/
def active (b : OrderBook) (id : OrderId) : Option ActiveOrder :=
  (b.restingOrders.lookup id).bind fun loc =>
    (b.deref loc.it).map fun order => ⟨loc.side, loc.price, order.remainingQuantity⟩

theorem Inv.active_eq {b : OrderBook} (inv : b.Inv) : b.active = b.view.active := by
  funext id
  rw [active, PriorityBook.active]
  cases hl : b.restingOrders.lookup id with
  | none => rw [inv.find_none hl, Option.bind_none, Option.map_none]
  | some loc =>
    obtain ⟨order, hd, hf⟩ := inv.find_some hl
    rw [hf, Option.bind_some, hd]
    rfl

/-- The exact units that rest on a side. -/
def sideUnits (b : OrderBook) (side : Side) : Nat :=
  ((b.levels side).map (fun e => queueUnits e.2.orders)).sum

theorem heldUnits_onSide (b : OrderBook) (side : Side) :
    b.view.heldUnits (PriorityBook.onSide side) = b.sideUnits side := by
  have hall : ∀ ls : Levels, GreedyFill.total Entry.units ((cells ls).map Cell.entry) =
      (ls.map (fun e => queueUnits e.2.orders)).sum := by
    intro ls
    induction ls with
    | nil => rfl
    | cons e ls ih =>
      have hlevel : GreedyFill.total Entry.units
          ((e.2.orders.map (Prod.mk e.1)).map Cell.entry) = queueUnits e.2.orders := by
        rw [GreedyFill.total, List.map_map, List.map_map]
        rfl
      rw [cells_cons, List.map_append, GreedyFill.total_append, ih, hlevel, List.map_cons,
        List.sum_cons]
  rw [PriorityBook.heldUnits_eq _ _ side, PriorityBook.unitsOn, PriorityBook.unitsOn]
  have hcontra : side.contra ≠ side := by cases side <;> simp [Side.contra]
  simp [PriorityBook.onSide, hcontra, view_orders, hall, sideUnits]

/-- What the commands of a sequence book, from a book on. -/
def ledgerFrom (who : Parties) : OrderBook → List Command → Ledger
  | _, [] => .zero
  | b, c :: commands =>
    (Ledger.entry who b.active (c, (b.step c).2)).add (ledgerFrom who (b.step c).1 commands)

/-- What the commands of a sequence book on an empty book. -/
def ledger (who : Parties) (commands : List Command) : Ledger := ledgerFrom who empty commands

theorem ledgerFrom_resting (who : Parties) {b : OrderBook} (inv : b.Inv) (commands : List Command) :
    ((Transducer.run step b commands).view.heldUnits who : Int) =
      b.view.heldUnits who + (ledgerFrom who b commands).resting := by
  induction commands generalizing b with
  | nil => simp [ledgerFrom, Ledger.zero, Ledger.resting, Ledger.executed]
  | cons c commands ih =>
    obtain ⟨hinv, hview, hresult⟩ := step_spec inv c
    have hstep := PriorityBook.heldUnits_step who inv.valid c
    rw [← hview, ← hresult, ← inv.active_eq] at hstep
    rw [Transducer.run_cons, ih hinv, hstep, ledgerFrom, Ledger.resting_add]
    omega

theorem ledgerFrom_nonneg (who : Parties) {b : OrderBook} (inv : b.Inv) (commands : List Command) :
    0 ≤ (ledgerFrom who b commands).cancelled ∧ 0 ≤ (ledgerFrom who b commands).discarded := by
  induction commands generalizing b with
  | nil => exact ⟨le_rfl, le_rfl⟩
  | cons c commands ih =>
    obtain ⟨hinv, _, hresult⟩ := step_spec inv c
    have hentry := PriorityBook.entry_nonneg who b.view c
    rw [← hresult, ← inv.active_eq] at hentry
    have hrest := ih hinv
    simp only [ledgerFrom, Ledger.add]
    omega

theorem ledgerFrom_executed_sides (s s' : Side) {b : OrderBook} (inv : b.Inv)
    (commands : List Command) :
    (ledgerFrom (PriorityBook.onSide s) b commands).executed =
      (ledgerFrom (PriorityBook.onSide s') b commands).executed := by
  induction commands generalizing b with
  | nil => rfl
  | cons c commands ih =>
    obtain ⟨hinv, _, hresult⟩ := step_spec inv c
    have hentry := PriorityBook.entry_executed_sides inv.valid c s s'
    rw [← hresult, ← inv.active_eq] at hentry
    have hrest := ih hinv
    simp only [ledgerFrom, Ledger.add, Ledger.executed] at hentry hrest ⊢
    omega

/-- The ledger leaves out no execution: each is booked for its incoming and for its resting party,
on the side of the command and on the other. -/
theorem executions_booked (commands : List Command) (c : Command) :
    let b := run commands
    let result := (b.step c).2
    ∃ side : Side, ∀ who,
      (Ledger.entry who b.active (c, result)).executedIncoming =
          executedUnits (fun x => who x.incomingOrderId side) result.executions ∧
        (Ledger.entry who b.active (c, result)).executedResting =
          executedUnits (fun x => who x.restingOrderId side.contra) result.executions := by
  have inv := run_inv commands
  have hentry := PriorityBook.entry_executions inv.valid c
  obtain ⟨-, -, hresult⟩ := step_spec inv c
  rwa [← hresult, ← inv.active_eq] at hentry

/-- For every order: what was submitted, adjusted by its replaces, was executed, cancelled or
discarded, or rests; so no order is filled beyond its quantity. The same holds of each side,
and both sides executed the same volume. -/
theorem volume_conserved (commands : List Command) :
    (∀ id, (ledger (PriorityBook.onId id) commands).submitted +
        (ledger (PriorityBook.onId id) commands).replaced =
      (ledger (PriorityBook.onId id) commands).executedIncoming +
      (ledger (PriorityBook.onId id) commands).executedResting +
      (ledger (PriorityBook.onId id) commands).cancelled +
      (ledger (PriorityBook.onId id) commands).discarded +
      (((run commands).active id).elim 0 (fun a => a.remainingQuantity.units) : Nat)) ∧
    (∀ id, (ledger (PriorityBook.onId id) commands).executed ≤
      (ledger (PriorityBook.onId id) commands).submitted +
        (ledger (PriorityBook.onId id) commands).replaced) ∧
    (∀ side, (ledger (PriorityBook.onSide side) commands).submitted +
        (ledger (PriorityBook.onSide side) commands).replaced =
      (ledger (PriorityBook.onSide side) commands).executed +
      (ledger (PriorityBook.onSide side) commands).cancelled +
      (ledger (PriorityBook.onSide side) commands).discarded + (run commands).sideUnits side) ∧
    (ledger (PriorityBook.onSide .buy) commands).executed =
      (ledger (PriorityBook.onSide .sell) commands).executed := by
  have inv := run_inv commands
  have hempty : ∀ who, empty.view.heldUnits who = 0 := fun _ => rfl
  have hbalance : ∀ who, ((run commands).view.heldUnits who : Int) = (ledger who commands).resting := by
    intro who
    have := ledgerFrom_resting who inv_empty commands
    rwa [hempty, Int.natCast_zero, zero_add] at this
  have hid : ∀ id, (ledger (PriorityBook.onId id) commands).resting =
      (((run commands).active id).elim 0 (fun a => a.remainingQuantity.units) : Nat) := by
    intro id
    rw [← hbalance, PriorityBook.heldUnits_onId inv.valid, inv.active_eq]
  have hside : ∀ side, (ledger (PriorityBook.onSide side) commands).resting =
      (run commands).sideUnits side := by
    intro side
    rw [← hbalance, heldUnits_onSide]
  refine ⟨?_, ?_, ?_, ledgerFrom_executed_sides .buy .sell inv_empty commands⟩
  · intro id
    have := hid id
    simp only [Ledger.resting, Ledger.executed] at this
    omega
  · intro id
    have hnonneg := ledgerFrom_nonneg (PriorityBook.onId id) inv_empty commands
    have := hid id
    simp only [Ledger.resting] at this
    simp only [ledger] at this ⊢
    omega
  · intro side
    have := hside side
    simp only [Ledger.resting] at this
    omega

end OrderBook

end LowLatencyExchange
