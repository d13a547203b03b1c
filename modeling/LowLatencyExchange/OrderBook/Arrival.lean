import LowLatencyExchange.OrderBook.Conservation
import LowLatencyExchange.OrderBook.Depth
import Mathlib.Tactic

/-!
# Time priority is arrival order

A ghost stamp records the position in the run of the command that last gave an order its
place: its submission, or its last replace that changed the price or raised the quantity.
Every level queue is in increasing stamp order. Sequence numbers play no part in this: runs
whose commands differ only there return the same results and show the same depth.
-/
namespace LowLatencyExchange

/-- Whether a replace changes the price or raises the quantity of the order it names. -/
def losesPlace (held : OrderId → Option ActiveOrder) (command : ReplaceOrder) : Bool :=
  (held command.orderId).any fun a =>
    a.price ≠ command.newPrice || a.remainingQuantity.units < command.newQuantity.units

/-- The order that a command gives a new place. -/
def placed (held : OrderId → Option ActiveOrder) : Command × Result → Option OrderId
  | (.submit order, result) => if result.accepted then some order.orderId else none
  | (.replace command, result) =>
    if result.accepted && losesPlace held command then some command.orderId else none
  | (.cancel _, _) => none

/-- The stamps after the command at a position of the run. -/
def newStamps (stamp : OrderId → Nat) (position : Nat) : Option OrderId → OrderId → Nat
  | some id => Function.update stamp id position
  | none => stamp

namespace PriorityBook

/-- Within a price, orders stand in the order of their stamps, all of them given before
`position`. -/
structure InOrder (stamp : OrderId → Nat) (position : Nat) (b : PriorityBook) : Prop where
  below : ∀ side, ∀ e ∈ b.orders side, stamp e.id < position
  increasing : ∀ side, (b.orders side).Pairwise (fun x y => x.1 = y.1 → stamp x.id < stamp y.id)

/-- What the order of a queue depends on. -/
def key (e : Entry) : Price × OrderId := (e.1, e.id)

section InOrder

variable {stamp : OrderId → Nat} {position : Nat} {b b' : PriorityBook}

theorem InOrder.of_sublist (h : InOrder stamp position b)
    (hsub : ∀ side, ((b'.orders side).map key).Sublist ((b.orders side).map key)) :
    InOrder stamp position b' := by
  refine ⟨?_, ?_⟩
  · intro side e he
    obtain ⟨x, hx, hkey⟩ := List.mem_map.mp ((hsub side).subset (List.mem_map_of_mem he))
    have hid : x.id = e.id := congrArg Prod.snd hkey
    exact hid ▸ h.below side x hx
  · intro side
    have hkeys : ((b.orders side).map key).Pairwise
        (fun x y => x.1 = y.1 → stamp x.2 < stamp y.2) := List.pairwise_map.mpr (h.increasing side)
    exact List.pairwise_map.mp (hkeys.sublist (hsub side))

theorem InOrder.mono (h : InOrder stamp position b) : InOrder stamp (position + 1) b :=
  ⟨fun side e he => Nat.lt_succ_of_lt (h.below side e he), h.increasing⟩

theorem InOrder.markSeen (h : InOrder stamp position b) (id : OrderId) :
    InOrder stamp position (b.markSeen id) :=
  h.of_sublist fun side => by rw [orders_markSeen]

theorem InOrder.take (h : InOrder stamp position b) (incoming : OrderId) (side : Side)
    (type : OrderType) (limitPrice : Option Price) (q : Nat) :
    InOrder stamp position (b.take incoming side type limitPrice q).book := by
  refine h.of_sublist fun s => ?_
  rcases Side.eq_or_eq_contra s side with rfl | rfl
  · rw [take_orders_own]
  · have hkey : ∀ e n, key (Entry.cut e n) = key e := fun e n => by simp [key]
    rw [take_orders_contra, fill_map_append key hkey (OrderBook.crosses side type limitPrice)
      (b.orders side.contra) q]
    exact List.sublist_append_right _ _

theorem InOrder.remove (h : InOrder stamp position b) (id : OrderId) :
    InOrder stamp position (b.remove id) := by
  refine h.of_sublist fun side => ?_
  rw [orders_remove]
  exact List.filter_sublist.map key

theorem InOrder.reduce (h : InOrder stamp position b) (id : OrderId) (quantity : Quantity) :
    InOrder stamp position (b.reduce id quantity) := by
  refine h.of_sublist fun side => ?_
  have hkey : key ∘ setQuantity id quantity = key := by
    funext e
    simp [key]
  rw [orders_reduce, List.map_map, hkey]

/-- Stamping an id that does not rest. -/
theorem InOrder.restamp (h : InOrder stamp position b) {id : OrderId} (n : Nat)
    (hid : b.Absent id) :
    InOrder (Function.update stamp id n) position b := by
  have hkeep : ∀ s, ∀ x ∈ b.orders s, Function.update stamp id n x.id = stamp x.id := by
    intro s x hx
    refine Function.update_of_ne (fun he => hid s ?_) _ _
    exact List.mem_map.mpr ⟨x, hx, he⟩
  refine ⟨fun s x hx => hkeep s x hx ▸ h.below s x hx, fun s => (h.increasing s).imp_of_mem ?_⟩
  intro x y hx hy hxy
  rw [hkeep s x hx, hkeep s y hy]
  exact hxy

/-- Joining the queue of its price behind every order there, with the newest stamp. -/
theorem InOrder.enqueue (h : InOrder stamp position b) (side : Side) {e : Entry}
    (hstamp : stamp e.id = position)
    (sorted : (b.orders side).Pairwise (fun x y => ¬ side.before y.1 x.1)) :
    InOrder stamp (position + 1) (b.setOrders side (enqueue side e (b.orders side))) := by
  obtain ⟨front, back, hs, hq, _, hback⟩ := enqueue_split sorted e
  refine ⟨?_, ?_⟩
  · intro s x hx
    rcases Side.eq_or_eq_contra s side with rfl | rfl
    · rw [orders_setOrders] at hx
      rcases (List.mem_orderedInsert _).mp hx with rfl | hx
      · omega
      · exact h.mono.below _ x hx
    · rw [orders_contra_setOrders] at hx
      exact h.mono.below _ x hx
  · intro s
    rcases Side.eq_or_eq_contra s side with rfl | rfl
    · have hside := h.increasing s
      rw [hs, List.pairwise_append] at hside
      rw [orders_setOrders, hq, List.pairwise_append]
      refine ⟨hside.1, List.pairwise_cons.mpr ⟨?_, hside.2.1⟩, ?_⟩
      · intro y hy hprice
        have := hback y hy
        rw [hprice] at this
        exact absurd this (irrefl _)
      · intro x hx y hy
        rcases List.mem_cons.mp hy with rfl | hy
        · intro _
          rw [hstamp]
          exact h.below s x (hs ▸ List.mem_append_left _ hx)
        · exact hside.2.2 x hx y hy
    · rw [orders_contra_setOrders]
      exact h.increasing side.contra

theorem InOrder.post (h : InOrder stamp position b) (id : OrderId) (sequence : SequenceNumber)
    (side : Side) (price : Price) (q : Nat)
    (sorted : (b.orders side).Pairwise (fun x y => ¬ side.before y.1 x.1))
    (hid : b.Absent id) :
    InOrder (Function.update stamp id position) (position + 1)
      (b.post id sequence side price q) := by
  have hnew := h.restamp position hid
  rw [PriorityBook.post]
  cases Quantity.fromUnits q with
  | some quantity => exact hnew.enqueue side (Function.update_self _ _ _) sorted
  | none => exact hnew.mono

theorem InOrder.step (h : InOrder stamp position b) (valid : b.Valid) (c : Command) :
    InOrder (newStamps stamp position (placed b.active (c, (b.step c).2))) (position + 1)
      (b.step c).1 := by
  have htrans := b.step_transition c
  generalize b.step c = r at htrans
  cases htrans with
  | invalid order hv => exact h.mono
  | duplicate order hv hs => exact h.mono
  | limit order price ht hp hs t ht' =>
    have hnot : t.book.Absent order.orderId :=
      ht' ▸ ((valid.absent hs).markSeen order.orderId).take _ _ _ _ _
    have htaken := (h.markSeen order.orderId).take order.orderId order.side .limit (some price)
      order.quantity.units
    have hsorted := valid.sorted order.side
    rw [← ht'] at htaken
    rw [← orders_markSeen b order.orderId, ← take_orders_own _ order.orderId order.side .limit
      (some price) order.quantity.units, ← ht'] at hsorted
    exact htaken.post order.orderId order.sequence order.side price t.rest hsorted hnot
  | market order ht hp hs t ht' =>
    have hnot : t.book.Absent order.orderId :=
      ht' ▸ ((valid.absent hs).markSeen order.orderId).take _ _ _ _ _
    have htaken := (h.markSeen order.orderId).take order.orderId order.side .market none
      order.quantity.units
    rw [← ht'] at htaken
    exact (htaken.restamp position hnot).mono
  | cancelMissing command hf => exact h.mono
  | cancelled command side e hf => exact (h.remove command.orderId).mono
  | replaceMissing command hf => exact h.mono
  | reduced command side e hf hc =>
    have hkeeps : losesPlace b.active command = false := by
      have hunits : command.newQuantity.units ≤ e.2.remainingQuantity.units := hc.2
      simp [losesPlace, active, hf, Entry.active, hc.1, hunits]
    simp only [placed, hkeeps, Bool.and_false, Bool.false_eq_true, if_false, newStamps]
    exact (h.reduce command.orderId command.newQuantity).mono
  | requeued command side e hf hc t ht =>
    have hloses : losesPlace b.active command = true := by
      have hunits : command.newPrice = e.1 → e.2.remainingQuantity.units < command.newQuantity.units :=
        fun hp => Nat.lt_of_not_le fun hle => hc ⟨hp, hle⟩
      simp only [losesPlace, active, hf, Entry.active, Option.map_some, Option.any_some,
        Bool.or_eq_true, decide_eq_true_eq]
      by_cases hp : command.newPrice = e.1
      · exact Or.inr (hunits hp)
      · exact Or.inl (Ne.symm hp)
    have hnot : t.book.Absent command.orderId :=
      ht ▸ (b.absent_remove command.orderId).take _ _ _ _ _
    have htaken := (h.remove command.orderId).take command.orderId side .limit
      (some command.newPrice) command.newQuantity.units
    have hsorted := (valid.remove command.orderId).sorted side
    rw [← ht] at htaken
    rw [← take_orders_own _ command.orderId side .limit (some command.newPrice)
      command.newQuantity.units, ← ht] at hsorted
    simp only [placed, hloses, Result.accepted, Option.isNone_none, Bool.and_true, if_true,
      newStamps]
    exact htaken.post command.orderId command.sequence side command.newPrice t.rest hsorted hnot

end InOrder

end PriorityBook

/-! ## Sequence numbers do not matter -/

/-- A fixed sequence number. -/
def someSequence : SequenceNumber := SequenceNumber.of 1

/-- The command with its sequence number forgotten. -/
def Command.unsequenced : Command → Command
  | .submit order => .submit { order with sequence := someSequence }
  | .cancel command => .cancel { command with sequence := someSequence }
  | .replace command => .replace { command with sequence := someSequence }

def Entry.unsequenced (e : Entry) : Entry := (e.1, { e.2 with sequence := someSequence })

namespace PriorityBook

def unsequenced (b : PriorityBook) : PriorityBook :=
  ⟨b.bids.map Entry.unsequenced, b.asks.map Entry.unsequenced, b.seen⟩

section Unsequenced

variable (b : PriorityBook)

@[simp] theorem unsequenced_seen : b.unsequenced.seen = b.seen := rfl

@[simp] theorem orders_unsequenced (side : Side) :
    b.unsequenced.orders side = (b.orders side).map Entry.unsequenced := by cases side <;> rfl

theorem unsequenced_setOrders (side : Side) (es : List Entry) :
    (b.setOrders side es).unsequenced =
      b.unsequenced.setOrders side (es.map Entry.unsequenced) := by cases side <;> rfl

theorem unsequenced_markSeen (id : OrderId) :
    (b.markSeen id).unsequenced = b.unsequenced.markSeen id := rfl

theorem Entry.unsequenced_cut (e : Entry) (n : Nat) :
    e.unsequenced.cut n = (e.cut n).unsequenced := by
  unfold Entry.cut Entry.unsequenced RestingOrder.cut
  split_ifs <;> rfl

theorem fill_unsequenced (eligible : Price → Bool) (es : List Entry) (q : Nat) :
    fill eligible (es.map Entry.unsequenced) q =
      { gone := (fill eligible es q).gone.map Entry.unsequenced
        part := (fill eligible es q).part.map (fun x => (x.1.unsequenced, x.2))
        left := (fill eligible es q).left.map Entry.unsequenced
        rest := (fill eligible es q).rest } :=
  GreedyFill.fill_map Entry.unsequenced (fun _ => rfl) (fun _ => rfl) Entry.unsequenced_cut es q

theorem take_unsequenced (incoming : OrderId) (side : Side) (type : OrderType)
    (limitPrice : Option Price) (q : Nat) :
    b.unsequenced.take incoming side type limitPrice q =
      ⟨(b.take incoming side type limitPrice q).book.unsequenced,
        (b.take incoming side type limitPrice q).rest,
        (b.take incoming side type limitPrice q).executions⟩ := by
  simp only [take, orders_unsequenced, fill_unsequenced, unsequenced_setOrders, Taken.mk.injEq,
    true_and, GreedyFill.Outcome.fills]
  rw [List.map_append, List.map_append, List.map_map, List.map_map, List.map_map,
    Option.toList_map, List.map_map]
  rfl

theorem post_unsequenced (id : OrderId) (sequence : SequenceNumber) (side : Side) (price : Price)
    (q : Nat) :
    b.unsequenced.post id someSequence side price q =
      (b.post id sequence side price q).unsequenced := by
  unfold post
  cases Quantity.fromUnits q with
  | none => rfl
  | some quantity =>
    dsimp only
    rw [unsequenced_setOrders, orders_unsequenced, enqueue, enqueue]
    congr 1
    symm
    exact List.map_orderedInsert _ _ _ _ _ (fun _ _ => Iff.rfl) (fun _ _ => Iff.rfl)

theorem remove_unsequenced (id : OrderId) :
    b.unsequenced.remove id = (b.remove id).unsequenced := by
  simp only [remove, unsequenced, List.filter_map]
  rfl

theorem reduce_unsequenced (id : OrderId) (quantity : Quantity) :
    b.unsequenced.reduce id quantity = (b.reduce id quantity).unsequenced := by
  have hcomm : setQuantity id quantity ∘ Entry.unsequenced =
      Entry.unsequenced ∘ setQuantity id quantity := by
    funext e
    have hid : e.unsequenced.id = e.id := rfl
    simp only [Function.comp_apply, setQuantity, hid]
    split_ifs <;> rfl
  simp only [reduce, unsequenced, List.map_map, hcomm]

theorem find_unsequenced (id : OrderId) :
    b.unsequenced.find id = (b.find id).map (fun x => (x.1, x.2.unsequenced)) := by
  simp only [find, unsequenced, List.find?_map]
  have hcomp : (fun e : Entry => decide (e.id = id)) ∘ Entry.unsequenced =
      fun e => decide (e.id = id) := rfl
  rw [hcomp]
  cases b.bids.find? (fun e => e.id = id) <;> cases b.asks.find? (fun e => e.id = id) <;> rfl

/-- Forgetting sequence numbers commutes with every step and changes no result. -/
theorem step_unsequenced (c : Command) :
    (b.unsequenced.step c.unsequenced).1 = (b.step c).1.unsequenced ∧
      (b.unsequenced.step c.unsequenced).2 = (b.step c).2 := by
  cases c with
  | submit order =>
    have hv : validate { order with sequence := someSequence } = validate order := rfl
    simp only [step, Command.unsequenced, submit, hv, unsequenced_seen, ← unsequenced_markSeen,
      take_unsequenced]
    split_ifs
    · exact ⟨rfl, rfl⟩
    · exact ⟨rfl, rfl⟩
    · cases order.type <;> cases order.limitPrice
      case limit.some price => exact ⟨post_unsequenced _ _ order.sequence _ _ _, rfl⟩
      all_goals exact ⟨rfl, rfl⟩
  | cancel command =>
    simp only [step, Command.unsequenced, cancel, find_unsequenced]
    cases b.find command.orderId with
    | none => exact ⟨rfl, rfl⟩
    | some x => exact ⟨b.remove_unsequenced command.orderId, rfl⟩
  | replace command =>
    simp only [step, Command.unsequenced, replace, find_unsequenced]
    cases b.find command.orderId with
    | none => exact ⟨rfl, rfl⟩
    | some x =>
      have hunits : x.2.unsequenced.units = x.2.units := rfl
      have hprice : x.2.unsequenced.1 = x.2.1 := rfl
      simp only [Option.map_some, hunits, hprice, remove_unsequenced, take_unsequenced]
      split_ifs
      · exact ⟨b.reduce_unsequenced command.orderId command.newQuantity, rfl⟩
      · exact ⟨post_unsequenced _ _ command.sequence _ _ _, rfl⟩

end Unsequenced

theorem run_unsequenced (commands : List Command) :
    run (commands.map Command.unsequenced) = (run commands).unsequenced ∧
      results (commands.map Command.unsequenced) = results commands := by
  have hstep : ∀ (b b' : PriorityBook) (c : Command), b' = b.unsequenced →
      (b'.step c.unsequenced).1 = (b.step c).1.unsequenced ∧
        (b.step c).2 = (b'.step c.unsequenced).2 := by
    rintro b _ c rfl
    exact ⟨(b.step_unsequenced c).1, (b.step_unsequenced c).2.symm⟩
  obtain ⟨hrun, hresults⟩ := Transducer.simulation_map (fun b b' => b' = b.unsequenced)
    Command.unsequenced hstep (s := empty) (t := empty) rfl commands
  exact ⟨hrun, hresults.symm⟩

end PriorityBook

namespace OrderBook

/-- A book with the stamps of its orders; the book itself does not look at them. -/
structure Stamped where
  book : OrderBook
  position : Nat
  stamp : OrderId → Nat

def Stamped.step (s : Stamped) (c : Command) : Stamped × Result :=
  let r := s.book.step c
  (⟨r.1, s.position + 1, newStamps s.stamp s.position (placed s.book.active (c, r.2))⟩, r.2)

/-- The stamped book after a command sequence. -/
def stamped (commands : List Command) : Stamped :=
  Transducer.run Stamped.step ⟨empty, 0, fun _ => 0⟩ commands

theorem stamped_book (commands : List Command) : (stamped commands).book = run commands :=
  (Transducer.simulation (fun (s : Stamped) b => s.book = b)
    (by rintro s _ c rfl; exact ⟨rfl, rfl⟩) rfl commands).1

theorem stamped_inOrder (commands : List Command) :
    (stamped commands).book.Inv ∧ PriorityBook.InOrder (stamped commands).stamp
      (stamped commands).position (stamped commands).book.view := by
  refine Transducer.run_invariant (fun s : Stamped => s.book.Inv ∧
    PriorityBook.InOrder s.stamp s.position s.book.view) ?_ ⟨inv_empty, ?_⟩ commands
  · rintro s c ⟨inv, h⟩
    obtain ⟨hinv, hview, hresult⟩ := step_spec inv c
    have hstep := h.step inv.valid c
    rw [← hview, ← hresult, ← inv.active_eq] at hstep
    exact ⟨hinv, hstep⟩
  · refine ⟨fun side e he => ?_, fun side => ?_⟩
    · cases side <;> exact absurd he List.not_mem_nil
    · cases side <;> exact List.Pairwise.nil

/-- The entries of a level are its queue, in order. -/
theorem level_sublist {b : OrderBook} {side : Side} {e : Price × PriceLevel}
    (he : e ∈ b.levels side) :
    (e.2.orders.map (fun n => (e.1, n.order))).Sublist (b.view.orders side) := by
  obtain ⟨front, back, hs⟩ := List.append_of_mem he
  rw [view_orders, hs]
  simp only [cells, OrderedMap.entries, List.flatMap_append, List.flatMap_cons, List.map_append,
    List.map_map]
  exact (List.sublist_append_left _ _).trans (List.sublist_append_right _ _)

theorem depth_congr {b b' : OrderBook} (inv : b.Inv) (inv' : b'.Inv)
    (h : ∀ side, (b.view.orders side).map Entry.priced = (b'.view.orders side).map Entry.priced)
    (n : Nat) : b.depth n = b'.depth n := by
  have hquotes : ∀ side, (b.levels side).map quote = (b'.levels side).map quote := by
    intro side
    rw [quotes_eq inv, quotes_eq inv', h]
  have hbids : b.bids.map quote = b'.bids.map quote := hquotes .buy
  have hasks : b.asks.map quote = b'.asks.map quote := hquotes .sell
  simp only [depth, bidDepth, askDepth, List.map_take, hbids, hasks]

theorem priced_of_unsequenced {p p' : PriorityBook} (h : p.unsequenced = p'.unsequenced)
    (side : Side) : (p.orders side).map Entry.priced = (p'.orders side).map Entry.priced := by
  have horders := congrArg (fun p => (p.orders side).map Entry.priced) h
  simp only [PriorityBook.orders_unsequenced, List.map_map] at horders
  exact horders

/-- In every level queue stamps increase, whatever the sequence numbers are. Runs whose
commands differ only in their sequence numbers return the same results, and show the same
depth after every command. -/
theorem queues_in_arrival_order (commands : List Command) :
    (stamped commands).book = run commands ∧
    (∀ side, ∀ e ∈ (run commands).levels side, e.2.orders.Pairwise (fun m n =>
      (stamped commands).stamp m.order.orderId < (stamped commands).stamp n.order.orderId)) ∧
    ∀ commands', commands.map Command.unsequenced = commands'.map Command.unsequenced →
      results commands = results commands' ∧
      ∀ k n, (run (commands.take k)).depth n = (run (commands'.take k)).depth n := by
  refine ⟨stamped_book commands, ?_, fun commands' h => ⟨?_, ?_⟩⟩
  · intro side e he
    have horder := (stamped_inOrder commands).2.increasing side
    rw [stamped_book] at horder
    have hlevel := List.pairwise_map.mp (horder.sublist (level_sublist he))
    exact hlevel.imp fun hmn => hmn rfl
  · rw [(run_view commands).2, (run_view commands').2, ← (PriorityBook.run_unsequenced commands).2,
      ← (PriorityBook.run_unsequenced commands').2, h]
  · intro k n
    have htake : (commands.take k).map Command.unsequenced =
        (commands'.take k).map Command.unsequenced := by
      rw [List.map_take, List.map_take, h]
    refine depth_congr (run_inv _) (run_inv _) (priced_of_unsequenced ?_) n
    rw [(run_view _).1, (run_view _).1, ← (PriorityBook.run_unsequenced _).1, htake,
      (PriorityBook.run_unsequenced _).1]

/-- Two bids at one price and a sale that fills the first one, with given sequence numbers. -/
def bidsAndSale (first second third : SequenceNumber) : List Command :=
  let price := Price.of 100
  let quantity := Quantity.of 5
  [.submit ⟨first, OrderId.of 1, .buy, .limit, quantity, some price⟩,
    .submit ⟨second, OrderId.of 2, .buy, .limit, quantity, some price⟩,
    .submit ⟨third, OrderId.of 3, .sell, .limit, quantity, some price⟩]

/-- A later bid with a lower sequence number does not overtake. -/
theorem bidsAndSale_same_results :
    let one := SequenceNumber.of 1
    let two := SequenceNumber.of 2
    (bidsAndSale one one one).map Command.unsequenced =
      (bidsAndSale two one two).map Command.unsequenced ∧
    results (bidsAndSale one one one) = results (bidsAndSale two one two) ∧
    ((results (bidsAndSale two one two)).flatMap Result.executions).map
      (fun x => x.restingOrderId.value) = [1] := by
  refine ⟨by decide, ((queues_in_arrival_order _).2.2 _ (by decide)).1, by decide +kernel⟩

end OrderBook

end LowLatencyExchange
