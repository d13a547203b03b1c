import LowLatencyExchange.OrderBook.PriorityLaws
import LowLatencyExchange.OrderBook.Representation
import Mathlib.Logic.Function.Basic
import Mathlib.Tactic

/-!
# A tracker that sees only commands and results

The tracker of `property_test.cpp` keeps its own map of the orders it believes to be
resting. It adds an order when a remaining quantity is reported, subtracts every reported
execution from the resting order it names, and moves or drops an order on an accepted
cancel or replace. The book reports enough for this map to be exact at all times.
-/
namespace LowLatencyExchange

abbrev Shadow := OrderId → Option ActiveOrder

namespace Shadow

def empty : Shadow := fun _ => none

/-- Subtract an execution from its resting order and drop the order at zero. -/
def fill (s : Shadow) (x : Execution) : Shadow :=
  Function.update s x.restingOrderId ((s x.restingOrderId).bind fun r =>
    (Quantity.fromUnits (r.remainingQuantity.units - x.quantity.units)).map fun q =>
      { r with remainingQuantity := q })

/-- One command with the result it returned. A rejected command changes nothing. -/
def track (s : Shadow) : Command × Result → Shadow
  | (.submit order, .submit result) =>
    if result.rejection.isNone then
      let s := result.executions.foldl fill s
      match order.limitPrice, result.remainingQuantity with
      | some price, some q => Function.update s order.orderId (some ⟨order.side, price, q⟩)
      | _, _ => s
    else s
  | (.cancel command, .cancel result) =>
    if result.rejection.isNone then Function.update s command.orderId none else s
  | (.replace command, .replace result) =>
    if result.rejection.isNone then
      match s command.orderId with
      | none => s
      | some target =>
        let s := result.executions.foldl fill (Function.update s command.orderId none)
        match result.remainingQuantity with
        | some q => Function.update s command.orderId (some ⟨target.side, command.newPrice, q⟩)
        | none => s
    else s
  | _ => s

end Shadow

namespace PriorityBook

/-- The shadow holds the entries of both sides and nothing else. -/
structure Tracks (s : Shadow) (b : PriorityBook) : Prop where
  resting : ∀ side, ∀ e ∈ b.orders side, s e.id = some (e.active side)
  absent : ∀ id, b.Absent id → s id = none

theorem shadow_fill_full {s : Shadow} {side : Side} {e : Entry} (hs : s e.id = some (e.active side))
    (incoming : OrderId) :
    s.fill (executionOf incoming (e, e.units)) = Function.update s e.id none := by
  have hx : (executionOf incoming (e, e.units)).restingOrderId = e.id := rfl
  have hunits : (e.active side).remainingQuantity.units - e.units = 0 := Nat.sub_self _
  have hzero : Quantity.fromUnits 0 = none := by simp [Quantity.fromUnits]
  rw [Shadow.fill, hx, hs, executionOf_units e.units_pos le_rfl, Option.bind_some, hunits, hzero]
  rfl

theorem shadow_fill_cut {s : Shadow} {side : Side} {e : Entry} (hs : s e.id = some (e.active side))
    (incoming : OrderId) {n : Nat} (h0 : 0 < n) (hn : n < e.units) :
    s.fill (executionOf incoming (e, n)) =
      Function.update s e.id (some ((e.cut n).active side)) := by
  have hx : (executionOf incoming (e, n)).restingOrderId = e.id := rfl
  have hq : Quantity.fromUnits ((e.active side).remainingQuantity.units - n) =
      some (e.cut n).2.remainingQuantity := by
    have hunits : (e.active side).remainingQuantity.units - n =
        (e.cut n).2.remainingQuantity.units := (Entry.cut_units hn).symm
    rw [hunits, Quantity.fromUnits_units]
  rw [Shadow.fill, hx, hs, executionOf_units h0 hn.le, Option.bind_some, hq]
  rfl

/-- Tracking the executions of a fill turns the entries filled into the entries left. -/
theorem foldl_fill (side : Side) (eligible : Price → Bool) (incoming : OrderId) (es : List Entry)
    (q : Nat) (hn : (es.map Entry.id).Nodup) (s : Shadow)
    (hs : ∀ e ∈ es, s e.id = some (e.active side)) :
    let o := fill eligible es q
    let s' := ((o.fills Entry.units).map (executionOf incoming)).foldl Shadow.fill s
    (∀ e ∈ o.left, s' e.id = some (e.active side)) ∧
    (∀ id, id ∉ es.map Entry.id → s' id = s id) ∧
    (∀ id, id ∈ es.map Entry.id → id ∉ o.left.map Entry.id → s' id = none) := by
  induction es generalizing q s with
  | nil => simp [fill, GreedyFill.Outcome.fills]
  | cons e es ih =>
    obtain ⟨he, hes⟩ := List.nodup_cons.mp hn
    have hse := hs e List.mem_cons_self
    have hother : ∀ x ∈ es, x.id ≠ e.id := fun x hx h => he (h ▸ List.mem_map_of_mem hx)
    by_cases hq : 0 < q ∧ eligible e.1
    · rcases Nat.lt_or_ge q e.units with hu | hu
      · rw [fill_cons_cut hq.1 hq.2 hu]
        simp only [GreedyFill.Outcome.fills, List.map_nil, List.nil_append, Option.toList_some,
          List.map_cons, List.foldl_cons, List.foldl_nil, shadow_fill_cut hse incoming hq.1 hu]
        refine ⟨?_, ?_, ?_⟩
        · intro x hx
          rcases List.mem_cons.mp hx with rfl | hx
          · simp
          · rw [Function.update_of_ne (hother x hx)]
            exact hs x (List.mem_cons_of_mem _ hx)
        · intro id hid
          exact Function.update_of_ne (fun h : id = e.id => hid (h ▸ List.mem_cons_self)) _ _
        · intro id hid hleft
          rw [Entry.cut_id] at hleft
          exact absurd hid hleft
      · have hkeep : ∀ x ∈ es, Function.update s e.id none x.id = some (x.active side) := by
          intro x hx
          rw [Function.update_of_ne (hother x hx)]
          exact hs x (List.mem_cons_of_mem _ hx)
        obtain ⟨hleft, hsame, hgone⟩ := ih (q - e.units) hes _ hkeep
        have hids := fill_ids eligible es (q - e.units)
        rw [fill_cons_full hq.1 hq.2 hu]
        simp only [GreedyFill.Outcome.fills, List.map_cons, List.cons_append, List.foldl_cons,
          shadow_fill_full hse incoming] at hleft hsame hgone ⊢
        refine ⟨hleft, ?_, ?_⟩
        · intro id hid
          rw [List.mem_cons, not_or] at hid
          rw [hsame id hid.2, Function.update_of_ne hid.1]
        · intro id hid hnot
          by_cases hmem : id ∈ es.map Entry.id
          · exact hgone id hmem hnot
          · obtain rfl : id = e.id := (List.mem_cons.mp hid).resolve_right hmem
            rw [hsame _ hmem, Function.update_self]
    · rw [fill_cons_stop hq]
      exact ⟨hs, fun _ _ => rfl, fun id hid hnot => absurd hid hnot⟩

section Tracks

variable {s : Shadow} {b : PriorityBook}

theorem Tracks.markSeen (h : Tracks s b) (id : OrderId) : Tracks s (b.markSeen id) :=
  ⟨fun side e he => h.resting side e (b.orders_markSeen id side ▸ he),
    fun id' hid => h.absent id' fun side => b.orders_markSeen id side ▸ hid side⟩

theorem Tracks.take (h : Tracks s b) (valid : b.Valid) (incoming : OrderId) (side : Side)
    (type : OrderType) (limitPrice : Option Price) (q : Nat) :
    Tracks ((b.take incoming side type limitPrice q).executions.foldl Shadow.fill s)
      (b.take incoming side type limitPrice q).book := by
  obtain ⟨hleft, hsame, hgone⟩ := foldl_fill side.contra (OrderBook.crosses side type limitPrice)
    incoming (b.orders side.contra) q (valid.ids.side side.contra) s (h.resting side.contra)
  refine ⟨?_, ?_⟩
  · intro s' e he
    rcases Side.eq_or_eq_contra s' side with rfl | rfl
    · rw [take_orders_own] at he
      exact (hsame _ (valid.ids.contra_notMem he)).trans (h.resting s' e he)
    · rw [take_orders_contra] at he
      exact hleft e he
  · intro id hid
    have hown := hid side
    have hcontra := hid side.contra
    rw [take_orders_own] at hown
    rw [take_orders_contra] at hcontra
    by_cases hmem : id ∈ (b.orders side.contra).map Entry.id
    · exact hgone id hmem hcontra
    · refine (hsame id hmem).trans (h.absent id fun s' => ?_)
      rcases Side.eq_or_eq_contra s' side with rfl | rfl
      · exact hown
      · exact hmem

theorem Tracks.enqueue (h : Tracks s b) (side : Side) (e : Entry)
    (hid : b.Absent e.id) :
    Tracks (Function.update s e.id (some (e.active side)))
      (b.setOrders side (enqueue side e (b.orders side))) := by
  have hne : ∀ s', ∀ x ∈ b.orders s', x.id ≠ e.id :=
    fun s' x hx he => hid s' (he ▸ List.mem_map_of_mem hx)
  refine ⟨?_, ?_⟩
  · intro s' x hx
    rcases Side.eq_or_eq_contra s' side with rfl | rfl
    · rw [orders_setOrders] at hx
      rcases (List.mem_orderedInsert _).mp hx with rfl | hx
      · exact Function.update_self _ _ _
      · rw [Function.update_of_ne (hne _ x hx)]
        exact h.resting _ x hx
    · rw [orders_contra_setOrders] at hx
      rw [Function.update_of_ne (hne _ x hx)]
      exact h.resting _ x hx
  · intro id habsent
    have hperm := ((b.orders side).perm_orderedInsert (fun x y => side.before x.1 y.1) e).map
      Entry.id
    have hside := habsent side
    rw [orders_setOrders, PriorityBook.enqueue, hperm.mem_iff, List.map_cons, List.mem_cons,
      not_or] at hside
    rw [Function.update_of_ne hside.1]
    refine h.absent id fun s' => ?_
    rcases Side.eq_or_eq_contra s' side with rfl | rfl
    · exact hside.2
    · have := habsent side.contra
      rwa [orders_contra_setOrders] at this

theorem Tracks.remove (h : Tracks s b) (id : OrderId) :
    Tracks (Function.update s id none) (b.remove id) := by
  refine ⟨?_, ?_⟩
  · intro side e he
    rw [orders_remove] at he
    obtain ⟨he, hne⟩ := List.mem_filter.mp he
    rw [Function.update_of_ne (of_decide_eq_true hne)]
    exact h.resting side e he
  · intro id' habsent
    by_cases hid : id' = id
    · rw [hid, Function.update_self]
    · rw [Function.update_of_ne hid]
      refine h.absent id' fun side hm => habsent side ?_
      obtain ⟨e, he, rfl⟩ := List.mem_map.mp hm
      rw [orders_remove]
      exact List.mem_map_of_mem (List.mem_filter.mpr ⟨he, decide_eq_true hid⟩)

theorem Tracks.reduce (h : Tracks s b) (valid : b.Valid) {id : OrderId} {side : Side} {e : Entry}
    (hf : b.find id = some (side, e)) (quantity : Quantity) :
    Tracks (Function.update s id (some ⟨side, e.1, quantity⟩)) (b.reduce id quantity) := by
  refine ⟨?_, ?_⟩
  · intro s' x hx
    rw [orders_reduce] at hx
    obtain ⟨y, hy, rfl⟩ := List.mem_map.mp hx
    rw [setQuantity_id]
    by_cases hid : y.id = id
    · have hfy := valid.ids.find_eq_some.mpr ⟨hy, hid⟩
      rw [hf] at hfy
      cases hfy
      rw [hid, Function.update_self, setQuantity, if_pos hid]
      rfl
    · rw [Function.update_of_ne hid, setQuantity, if_neg hid]
      exact h.resting s' y hy
  · intro id' habsent
    have hids : ∀ s', ((b.reduce id quantity).orders s').map Entry.id =
        (b.orders s').map Entry.id := by
      intro s'
      rw [orders_reduce, List.map_map]
      exact List.map_congr_left fun x _ => setQuantity_id id quantity x
    have hne : id' ≠ id := by
      rintro rfl
      obtain ⟨he, hid⟩ := valid.found hf
      exact habsent side (hids side ▸ hid ▸ List.mem_map_of_mem he)
    rw [Function.update_of_ne hne]
    exact h.absent id' fun s' => hids s' ▸ habsent s'

/-- Resting the units that are left, and tracking the quantity reported for them. -/
theorem Tracks.post (h : Tracks s b) (id : OrderId) (sequence : SequenceNumber) (side : Side)
    (price : Price) (q : Nat) (hid : b.Absent id) :
    Tracks (match Quantity.fromUnits q with
        | some quantity => Function.update s id (some ⟨side, price, quantity⟩)
        | none => s)
      (b.post id sequence side price q) := by
  rw [PriorityBook.post]
  cases Quantity.fromUnits q with
  | none => exact h
  | some quantity => exact h.enqueue side (price, ⟨id, sequence, quantity⟩) hid

theorem Tracks.step (h : Tracks s b) (valid : b.Valid) (c : Command) :
    Tracks (s.track (c, (b.step c).2)) (b.step c).1 := by
  have htrans := b.step_transition c
  generalize b.step c = r at htrans
  cases htrans with
  | invalid order hv => exact h
  | duplicate order hv hs => exact h
  | limit order price ht hp hs t ht' =>
    have hnot : t.book.Absent order.orderId :=
      ht' ▸ ((valid.absent hs).markSeen order.orderId).take _ _ _ _ _
    have htaken := (h.markSeen order.orderId).take (valid.markSeen order.orderId) order.orderId
      order.side .limit (some price) order.quantity.units
    rw [← ht'] at htaken
    have hpost := htaken.post order.orderId order.sequence order.side price t.rest hnot
    simp only [Shadow.track, Option.isNone_none, if_true, hp]
    cases hq : Quantity.fromUnits t.rest <;> rw [hq] at hpost <;> exact hpost
  | market order ht hp hs t ht' =>
    have htaken := (h.markSeen order.orderId).take (valid.markSeen order.orderId) order.orderId
      order.side .market none order.quantity.units
    rw [← ht'] at htaken
    simpa [Shadow.track, hp] using htaken
  | cancelMissing command hf => exact h
  | cancelled command side e hf => exact h.remove command.orderId
  | replaceMissing command hf => exact h
  | reduced command side e hf hc =>
    obtain ⟨he, hid⟩ := valid.found hf
    have hactive := h.resting side e he
    rw [hid] at hactive
    have hreduce := h.reduce valid hf command.newQuantity
    rw [← hc.1] at hreduce
    simpa [Shadow.track, hactive, Entry.active] using hreduce
  | requeued command side e hf hc t ht =>
    obtain ⟨he, hid⟩ := valid.found hf
    have hactive := h.resting side e he
    rw [hid] at hactive
    have hnot : t.book.Absent command.orderId :=
      ht ▸ (b.absent_remove command.orderId).take _ _ _ _ _
    have htaken := (h.remove command.orderId).take (valid.remove command.orderId)
      command.orderId side .limit (some command.newPrice) command.newQuantity.units
    rw [← ht] at htaken
    have hpost := htaken.post command.orderId command.sequence side command.newPrice t.rest hnot
    simp only [Shadow.track, Option.isNone_none, if_true, hactive, Entry.active]
    cases hq : Quantity.fromUnits t.rest <;> rw [hq] at hpost <;> exact hpost

end Tracks

end PriorityBook

namespace PriorityBook

/-- Only an accepted new order marks an id as seen. -/
theorem step_seen (b : PriorityBook) (c : Command) :
    (b.step c).1.seen =
      match c with
      | .submit order => if (b.step c).2.accepted then insert order.orderId b.seen else b.seen
      | _ => b.seen := by
  have htrans := b.step_transition c
  generalize b.step c = r at htrans
  cases htrans with
  | limit order price ht hp hs t ht' => simp [Result.accepted, ht', markSeen]
  | market order ht hp hs t ht' => simp [Result.accepted, ht', markSeen]
  | requeued command side e hf hc t ht => simp [ht, remove]
  | _ => rfl

/-- When a command is accepted. -/
theorem step_accepted_iff (b : PriorityBook) (c : Command) :
    (b.step c).2.accepted = true ↔
      match c with
      | .submit order => validate order = none ∧ order.orderId ∉ b.seen
      | .cancel command => b.find command.orderId ≠ none
      | .replace command => b.find command.orderId ≠ none := by
  have htrans := b.step_transition c
  generalize b.step c = r at htrans
  cases htrans with
  | invalid order hv => simp [Result.accepted, hv]
  | duplicate order hv hs => simp [Result.accepted, hs]
  | limit order price ht hp hs t ht' =>
    have hv : validate order = none := validate_limit ht hp
    simp [Result.accepted, hv, hs]
  | market order ht hp hs t ht' =>
    have hv : validate order = none := validate_market ht hp
    simp [Result.accepted, hv, hs]
  | cancelMissing command hf => simp [Result.accepted, hf]
  | cancelled command side e hf => simp [Result.accepted, hf]
  | replaceMissing command hf => simp [Result.accepted, hf]
  | reduced command side e hf hc => simp [Result.accepted, hf]
  | requeued command side e hf hc t ht => simp [Result.accepted, hf]

/-- The shadow finds exactly the ids the book finds. -/
theorem Tracks.find_eq {s : Shadow} {b : PriorityBook} (h : Tracks s b) (valid : b.Valid)
    (id : OrderId) : s id = (b.find id).map fun x => x.2.active x.1 := by
  cases hf : b.find id with
  | none => exact h.absent id (find_eq_none.mp hf)
  | some x =>
    obtain ⟨he, hid⟩ := valid.found hf
    exact hid ▸ h.resting x.1 x.2 he

end PriorityBook

namespace OrderBook

/-- The shadow after a command sequence, from the commands and what they returned. -/
def shadow (commands : List Command) : Shadow := (trace commands).foldl Shadow.track Shadow.empty

def acceptedId : Command × Result → Option OrderId
  | (.submit order, result) => if result.accepted then some order.orderId else none
  | _ => none

/-- The ids of the new orders accepted in a command sequence. -/
def acceptedIds (commands : List Command) : List OrderId := (trace commands).filterMap acceptedId

/-- An order with this id, side, price and remaining quantity is queued. -/
def Rests (b : OrderBook) (id : OrderId) (active : ActiveOrder) : Prop :=
  ∃ level n, (active.price, level) ∈ b.levels active.side ∧ n ∈ level.orders ∧
    n.order.orderId = id ∧ n.order.remainingQuantity = active.remainingQuantity

theorem rests_iff (b : OrderBook) (id : OrderId) (active : ActiveOrder) :
    b.Rests id active ↔
      ∃ e ∈ b.view.orders active.side, e.id = id ∧ e.active active.side = active := by
  rw [view_orders]
  constructor
  · rintro ⟨level, n, hl, hn, hid, hq⟩
    have hcell : ((active.price, n) : Cell) ∈ cells (b.levels active.side) :=
      OrderedMap.mem_entries.mpr ⟨level, hl, hn⟩
    refine ⟨_, List.mem_map_of_mem hcell, hid, ?_⟩
    simp [Entry.active, Cell.entry, hq]
  · rintro ⟨e, he, hid, hactive⟩
    obtain ⟨c, hc, rfl⟩ := List.mem_map.mp he
    obtain ⟨level, hl, hn⟩ := OrderedMap.mem_entries.mp hc
    have hprice : c.1 = active.price := congrArg ActiveOrder.price hactive
    exact ⟨level, c.2, hprice ▸ hl, hn, hid, congrArg ActiveOrder.remainingQuantity hactive⟩

theorem shadow_concat (commands : List Command) (c : Command) :
    shadow (commands ++ [c]) = (shadow commands).track (c, ((run commands).step c).2) := by
  rw [shadow, trace_concat, List.foldl_append]
  rfl

theorem shadow_tracks (commands : List Command) :
    PriorityBook.Tracks (shadow commands) (run commands).view := by
  induction commands using List.reverseRecOn with
  | nil =>
    refine ⟨?_, fun _ _ => rfl⟩
    intro side e he
    cases side <;> exact absurd he List.not_mem_nil
  | append_singleton commands c ih =>
    have inv := run_inv commands
    obtain ⟨_, hview, hresult⟩ := step_spec inv c
    rw [shadow_concat, hresult, run_concat, hview]
    exact ih.step inv.valid c

theorem seen_eq_acceptedIds (commands : List Command) :
    (run commands).seenOrderIds = (acceptedIds commands).toFinset := by
  induction commands using List.reverseRecOn with
  | nil => rfl
  | append_singleton commands c ih =>
    obtain ⟨_, hview, hresult⟩ := step_spec (run_inv commands) c
    have hseen := (run commands).view.step_seen c
    rw [← hview, ← hresult] at hseen
    have hstep : (run (commands ++ [c])).seenOrderIds = ((run commands).step c).1.view.seen :=
      congrArg seenOrderIds (run_concat commands c)
    have hold : (run commands).view.seen = (acceptedIds commands).toFinset := ih
    rw [hstep, hseen, acceptedIds, trace_concat, List.filterMap_append, List.toFinset_append,
      ← acceptedIds, ← hold]
    cases c with
    | submit order =>
      cases hacc : ((run commands).step (.submit order)).2.accepted <;> simp [acceptedId, hacc]
    | cancel command => exact (Finset.union_empty _).symm
    | replace command => exact (Finset.union_empty _).symm

/-- A rejected command leaves the whole private state as it was. -/
theorem step_of_rejected {b : OrderBook} (inv : b.Inv) {c : Command}
    (h : (b.step c).2.accepted = false) : (b.step c).1 = b := by
  have hiff := b.view.step_accepted_iff c
  rw [← (step_spec inv c).2.2, h] at hiff
  have hlookup : ∀ id, ¬ b.view.find id ≠ none → b.restingOrders.lookup id = none := by
    intro id hf
    cases hl : b.restingOrders.lookup id with
    | none => rfl
    | some loc =>
      obtain ⟨order, _, hfound⟩ := inv.find_some hl
      exact absurd (by simp [hfound]) hf
  cases c with
  | submit order =>
    cases hv : validate order with
    | some e => simp [step, submit, hv]
    | none =>
      have hs : order.orderId ∈ b.seenOrderIds := by
        by_contra hs
        exact Bool.false_ne_true (hiff.mpr ⟨hv, hs⟩)
      simp [step, submit, hv, hs]
  | cancel command =>
    have hl := hlookup command.orderId fun hf => Bool.false_ne_true (hiff.mpr hf)
    simp [step, cancel, hl]
  | replace command =>
    have hl := hlookup command.orderId fun hf => Bool.false_ne_true (hiff.mpr hf)
    simp [step, replace, hl]

/-- After any run the shadow is the set of resting orders. A new order is accepted when it
is valid and no new order with its id was accepted before; a cancel or a replace when the
shadow holds its id, and a cancel reports the shadow's quantity. A rejected command leaves
the book as it was. -/
theorem shadow_exact (commands : List Command) :
    (∀ id active, shadow commands id = some active ↔ (run commands).Rests id active) ∧
    (∀ order, ((run commands).submit order).2.rejection = none ↔
      validate order = none ∧ order.orderId ∉ acceptedIds commands) ∧
    (∀ command, ((run commands).cancel command).2.rejection = none ↔
      (shadow commands command.orderId).isSome) ∧
    (∀ command, ((run commands).replace command).2.rejection = none ↔
      (shadow commands command.orderId).isSome) ∧
    (∀ command, ((run commands).cancel command).2.rejection = none →
      ((run commands).cancel command).2.cancelledQuantity =
        (shadow commands command.orderId).map ActiveOrder.remainingQuantity) ∧
    (∀ c, ((run commands).step c).2.accepted = false → ((run commands).step c).1 = run commands) := by
  have inv := run_inv commands
  have htracks := shadow_tracks commands
  have hfind := htracks.find_eq inv.valid
  have haccepted : ∀ c, _ := fun c => (step_spec inv c).2.2 ▸ (run commands).view.step_accepted_iff c
  have hheld : ∀ id, (run commands).view.find id ≠ none ↔ (shadow commands id).isSome := by
    intro id
    rw [hfind, Option.isSome_map, Option.isSome_iff_ne_none]
  refine ⟨?_, ?_, ?_, ?_, ?_, fun c h => step_of_rejected inv h⟩
  · intro id active
    rw [rests_iff, hfind]
    constructor
    · intro h
      obtain ⟨⟨side, e⟩, hf, rfl⟩ := Option.map_eq_some_iff.mp h
      obtain ⟨he, hid⟩ := inv.valid.found hf
      exact ⟨e, he, hid, rfl⟩
    · rintro ⟨e, he, hid, hactive⟩
      rw [inv.valid.ids.find_eq_some.mpr ⟨he, hid⟩, Option.map_some, hactive]
  · intro order
    have hseen : order.orderId ∉ (run commands).view.seen ↔ order.orderId ∉ acceptedIds commands := by
      rw [← List.mem_toFinset, ← seen_eq_acceptedIds]
      rfl
    rw [← hseen]
    exact Option.isNone_iff_eq_none.symm.trans (haccepted (.submit order))
  · intro command
    rw [← hheld]
    exact Option.isNone_iff_eq_none.symm.trans (haccepted (.cancel command))
  · intro command
    rw [← hheld]
    exact Option.isNone_iff_eq_none.symm.trans (haccepted (.replace command))
  · intro command haccept
    rw [(cancel_spec inv command).2.2] at haccept ⊢
    rw [hfind]
    cases hf : (run commands).view.find command.orderId with
    | none => simp [PriorityBook.cancel, hf] at haccept
    | some x => simp [PriorityBook.cancel, hf, Entry.active]

end OrderBook

end LowLatencyExchange
