import LowLatencyExchange.OrderBook.Conservation
import LowLatencyExchange.OrderBook.Shadow
import Mathlib.Tactic

/-!
# The effect of one command, by order id

Who keeps records beside the book, such as the session of each resting order, needs to know
what one command does to the orders that rest, from the command and its result alone. Orders
other than the command's own change only by an execution that names them, and no order is
named twice.
-/
namespace LowLatencyExchange

def Command.orderId : Command → OrderId
  | .submit order => order.orderId
  | .cancel command => command.orderId
  | .replace command => command.orderId

/-- The ids of the resting orders that a command was executed against. -/
def Result.restingIds (result : Result) : List OrderId :=
  result.executions.map Execution.restingOrderId

namespace Shadow

theorem foldl_fill_of_notMem {xs : List Execution} {id : OrderId}
    (h : id ∉ xs.map Execution.restingOrderId) (s : Shadow) : xs.foldl fill s id = s id := by
  induction xs generalizing s with
  | nil => rfl
  | cons x xs ih =>
    simp only [List.map_cons, List.mem_cons, not_or] at h
    rw [List.foldl_cons, ih h.2, fill, Function.update_of_ne h.1]

theorem foldl_fill_of_none (xs : List Execution) {s : Shadow} {id : OrderId} (h : s id = none) :
    xs.foldl fill s id = none := by
  induction xs generalizing s with
  | nil => exact h
  | cons x xs ih =>
    refine ih ?_
    by_cases hid : id = x.restingOrderId
    · subst hid
      simp [fill, h]
    · rw [fill, Function.update_of_ne hid, h]

variable {s : Shadow} {c : Command} {r : Result} {id : OrderId}

/-- Other ids than the command's own see its executions at most. -/
theorem track_other (hown : id ≠ c.orderId) :
    s.track (c, r) id = s id ∨
      ∃ t : Shadow, t id = s id ∧ s.track (c, r) id = r.executions.foldl fill t id := by
  cases c with
  | submit order =>
    cases r with
    | submit result =>
      simp only [track, Result.executions]
      split_ifs
      · refine .inr ⟨s, rfl, ?_⟩
        cases order.limitPrice with
        | none => rfl
        | some price =>
          cases result.remainingQuantity with
          | none => rfl
          | some q => exact Function.update_of_ne hown _ _
      · exact .inl rfl
    | cancel result => exact .inl rfl
    | replace result => exact .inl rfl
  | cancel command =>
    cases r with
    | cancel result =>
      simp only [track]
      split_ifs
      · exact .inl (Function.update_of_ne hown _ _)
      · exact .inl rfl
    | submit result => exact .inl rfl
    | replace result => exact .inl rfl
  | replace command =>
    cases r with
    | replace result =>
      simp only [track, Result.executions]
      split_ifs
      · cases s command.orderId with
        | none => exact .inl rfl
        | some target =>
          refine .inr ⟨Function.update s command.orderId none, Function.update_of_ne hown _ _, ?_⟩
          cases result.remainingQuantity with
          | none => rfl
          | some q => exact Function.update_of_ne hown _ _
      · exact .inl rfl
    | submit result => exact .inl rfl
    | cancel result => exact .inl rfl

/-- The ids a command does not name keep their orders. -/
theorem track_of_notMem (hown : id ≠ c.orderId) (h : id ∉ r.restingIds) :
    s.track (c, r) id = s id := by
  obtain heq | ⟨t, ht, heq⟩ := track_other (s := s) (r := r) hown
  · exact heq
  · rw [heq, foldl_fill_of_notMem h, ht]

/-- No order but the command's own comes to rest. -/
theorem track_of_none (hown : id ≠ c.orderId) (h : s id = none) : s.track (c, r) id = none := by
  obtain heq | ⟨t, ht, heq⟩ := track_other (s := s) (r := r) hown
  · rw [heq, h]
  · rw [heq, foldl_fill_of_none _ (ht.trans h)]

end Shadow

namespace PriorityBook

variable {b : PriorityBook}

/-- What a book holds by id tracks the book. -/
theorem Valid.tracks (valid : b.Valid) : Tracks b.active b where
  resting side e he := by rw [active, valid.ids.find_eq_some.mpr ⟨he, rfl⟩]; rfl
  absent id h := by rw [active, find_eq_none.mpr h]; rfl

/-- The executions of an incoming order name different orders of the contra side. -/
theorem take_restingIds (valid : b.Valid) (incoming : OrderId) (side : Side) (type : OrderType)
    (limitPrice : Option Price) (q : Nat) :
    ((b.take incoming side type limitPrice q).executions.map Execution.restingOrderId).Nodup ∧
    ∀ id ∈ (b.take incoming side type limitPrice q).executions.map Execution.restingOrderId,
      id ∈ (b.orders side.contra).map Entry.id := by
  have htouched := GreedyFill.fill_touched
    (fun e : Entry => OrderBook.crosses side type limitPrice e.1) Entry.units Entry.cut
    (b.orders side.contra) q
  have hids : (b.take incoming side type limitPrice q).executions.map Execution.restingOrderId =
      (((fill (OrderBook.crosses side type limitPrice) (b.orders side.contra) q).fills
        Entry.units).map Prod.fst).map Entry.id := by
    simp [take, executionOf, Function.comp_def]
  rw [hids]
  have hsub := (htouched.sublist.map Entry.id)
  exact ⟨(valid.ids.side side.contra).sublist hsub, fun id hid => hsub.subset hid⟩

/-- The executions of a command name different orders that rested, and not its own. -/
theorem step_restingIds (valid : b.Valid) (c : Command) :
    (b.step c).2.restingIds.Nodup ∧
    ∀ id ∈ (b.step c).2.restingIds, id ≠ c.orderId ∧ (b.active id).isSome := by
  have hactive : ∀ {side : Side} {id : OrderId}, id ∈ (b.orders side).map Entry.id →
      (b.active id).isSome := by
    intro side id hid
    obtain ⟨e, he, rfl⟩ := List.mem_map.mp hid
    rw [valid.tracks.resting side e he]
    rfl
  have htrans := b.step_transition c
  generalize b.step c = r at htrans
  cases htrans with
  | limit order price ht hp hs t ht' =>
    obtain ⟨hnodup, hids⟩ := take_restingIds (valid.markSeen order.orderId) order.orderId order.side
      .limit (some price) order.quantity.units
    rw [← ht', orders_markSeen] at hids
    refine ⟨ht' ▸ hnodup, fun id hid => ⟨?_, hactive (hids id hid)⟩⟩
    rintro rfl
    exact valid.absent hs _ (hids _ hid)
  | market order ht hp hs t ht' =>
    obtain ⟨hnodup, hids⟩ := take_restingIds (valid.markSeen order.orderId) order.orderId order.side
      .market none order.quantity.units
    rw [← ht', orders_markSeen] at hids
    refine ⟨ht' ▸ hnodup, fun id hid => ⟨?_, hactive (hids id hid)⟩⟩
    rintro rfl
    exact valid.absent hs _ (hids _ hid)
  | requeued command side e hf hc t ht =>
    obtain ⟨hnodup, hids⟩ := take_restingIds (valid.remove command.orderId) command.orderId side
      .limit (some command.newPrice) command.newQuantity.units
    rw [← ht] at hids
    refine ⟨ht ▸ hnodup, fun id hid => ⟨?_, ?_⟩⟩
    · rintro rfl
      exact absent_remove b command.orderId _ (hids _ hid)
    · have := hids id hid
      rw [orders_remove] at this
      exact hactive (List.filter_sublist.map Entry.id |>.subset this)
  | _ => exact ⟨List.nodup_nil, fun id hid => absurd hid List.not_mem_nil⟩

end PriorityBook

/-- An accepted command reports what is left of its order, or what was cancelled. -/
def Result.Reports (before after : Option ActiveOrder) : Result → Prop
  | .submit result => before = none ∧
      result.remainingQuantity = after.map ActiveOrder.remainingQuantity
  | .replace result => result.remainingQuantity = after.map ActiveOrder.remainingQuantity
  | .cancel result => after = none ∧ before.isSome ∧
      result.cancelledQuantity = before.map ActiveOrder.remainingQuantity

/-- What a command does to the resting orders, given by id before and after it. -/
structure Effect (before after : OrderId → Option ActiveOrder) (c : Command) (r : Result) :
    Prop where
  distinct : r.restingIds.Nodup
  resting : ∀ id ∈ r.restingIds, id ≠ c.orderId ∧ (before id).isSome
  others : ∀ id, id ≠ c.orderId → id ∉ r.restingIds → after id = before id
  absent : ∀ id, id ≠ c.orderId → before id = none → after id = none
  rejected : r.accepted = false → r.executions = [] ∧ after = before
  accepted : r.accepted = true → r.Reports (before c.orderId) (after c.orderId)

namespace PriorityBook

variable {b : PriorityBook}

theorem step_effect (valid : b.Valid) (c : Command) :
    Effect b.active (Shadow.track b.active (c, (b.step c).2)) c (b.step c).2 := by
  obtain ⟨hdistinct, hresting⟩ := step_restingIds valid c
  refine ⟨hdistinct, hresting, fun id hown h => Shadow.track_of_notMem hown h,
    fun id hown h => Shadow.track_of_none hown h, ?_, ?_⟩
  · have htrans := b.step_transition c
    generalize b.step c = r at htrans
    intro hrejected
    cases htrans with
    | invalid order hv => exact ⟨rfl, rfl⟩
    | duplicate order hv hs => exact ⟨rfl, rfl⟩
    | cancelMissing command hf => exact ⟨rfl, rfl⟩
    | replaceMissing command hf => exact ⟨rfl, rfl⟩
    | _ => cases hrejected
  · have htrans := b.step_transition c
    generalize b.step c = r at htrans
    intro haccepted
    cases htrans with
    | limit order price ht hp hs t ht' =>
      have hnone : b.active order.orderId = none := valid.tracks.absent _ (valid.absent hs)
      have hfill := Shadow.foldl_fill_of_none t.executions hnone
      simp only [Result.Reports, Shadow.track, Option.isNone_none, if_true, hp, Command.orderId]
      refine ⟨hnone, ?_⟩
      cases Quantity.fromUnits t.rest with
      | none => simp [hfill]
      | some q => simp
    | market order ht hp hs t ht' =>
      have hnone : b.active order.orderId = none := valid.tracks.absent _ (valid.absent hs)
      have hfill := Shadow.foldl_fill_of_none t.executions hnone
      simp [Result.Reports, Shadow.track, hp, Command.orderId, hnone, hfill]
    | cancelled command side e hf =>
      have hsome : b.active command.orderId = some (e.active side) := by simp [active, hf]
      simp [Result.Reports, Shadow.track, Command.orderId, hsome, Entry.active]
    | reduced command side e hf hc =>
      have hsome : b.active command.orderId = some (e.active side) := by simp [active, hf]
      simp [Result.Reports, Shadow.track, Command.orderId, hsome]
    | requeued command side e hf hc t ht =>
      have hsome : b.active command.orderId = some (e.active side) := by simp [active, hf]
      have hfill := Shadow.foldl_fill_of_none t.executions
        (Function.update_self command.orderId none b.active)
      simp only [Result.Reports, Shadow.track, Option.isNone_none, if_true, hsome, Command.orderId]
      cases Quantity.fromUnits t.rest with
      | none => simp [hfill]
      | some q => simp
    | _ => cases haccepted

end PriorityBook

namespace OrderBook

theorem Inv.step_effect {b : OrderBook} (inv : b.Inv) (c : Command) :
    Effect b.active (b.step c).1.active c (b.step c).2 := by
  obtain ⟨hinv, hview, hresult⟩ := step_spec inv c
  have htracks := inv.valid.tracks.step inv.valid c
  have hafter : (b.step c).1.active = Shadow.track b.view.active (c, (b.view.step c).2) := by
    funext id
    rw [hinv.active_eq, hview, htracks.find_eq (hview ▸ hinv.valid) id]
    rfl
  rw [inv.active_eq, hafter, hresult]
  exact PriorityBook.step_effect inv.valid c

theorem Inv.contains_eq {b : OrderBook} (inv : b.Inv) (id : OrderId) :
    b.contains id = (b.active id).isSome := by
  rw [contains, active]
  cases hl : b.restingOrders.lookup id with
  | none => simp [← Finmap.lookup_isSome, hl]
  | some loc =>
    obtain ⟨order, hd, -⟩ := inv.find_some hl
    simp [← Finmap.lookup_isSome, hl, hd]

end OrderBook

end LowLatencyExchange
