import LowLatencyExchange.OrderBook.Removal
import Mathlib.Tactic

/-!
# Runs of the order book are runs of the priority book

Every command keeps the representation invariant, returns what the priority book returns,
and leaves a book whose view is the priority book's next state. By induction this holds
along every run from the empty book.
-/
namespace LowLatencyExchange.OrderBook

/-- A valid side lists its prices in comparator order. -/
theorem LevelsValid.entries_pairwise {side : Side} {ls : Levels} (h : LevelsValid side ls) :
    ((cells ls).map Cell.entry).Pairwise (fun x y => ¬ side.before y.1 x.1) :=
  List.pairwise_map.mpr h.sorted.entries_pairwise

theorem Inv.levels {b : OrderBook} (inv : b.Inv) (side : Side) :
    LevelsValid side (b.levels side) := by
  cases side
  · exact inv.bids
  · exact inv.asks

/-- Marking an id as seen. -/
theorem Inv.markSeen {b : OrderBook} (inv : b.Inv) (id : OrderId) : (b.markSeen id).Inv :=
  ⟨inv.bids, inv.asks, inv.indexed.mono_seen (Finset.subset_insert _ _), inv.uncrossed⟩

theorem Inv.view_seen {b : OrderBook} (inv : b.Inv) {side : Side} {id : OrderId}
    (h : id ∈ (b.view.orders side).map Entry.id) : id ∈ b.seenOrderIds := by
  rw [view_orders, ← sidePlaces_ids side] at h
  obtain ⟨x, hx, rfl⟩ := List.mem_map.mp h
  exact inv.indexed.seen x ((b.places_perm side).mem_iff.mpr (List.mem_append_left _ hx))

/-- Rest the units that are left, if any: the common tail of `submit` and `replace`. -/
def insertRemaining (b : OrderBook) (id : OrderId) (sequence : SequenceNumber) (side : Side)
    (price : Price) (remainingUnits : Nat) : OrderBook :=
  match Quantity.fromUnits remainingUnits with
  | some quantity => b.insertRestingOrder id sequence side price quantity
  | none => b

/-- Matching a limit order and resting what is left of it. -/
theorem match_insert_spec {b : OrderBook} (inv : b.Inv) (id : OrderId)
    (sequence : SequenceNumber) (side : Side) (price : Price) (q : Nat)
    (hid : ∀ s, id ∉ (b.view.orders s).map Entry.id) (hseen : id ∈ b.seenOrderIds) :
    let r := b.matchAgainstBook id side .limit (some price) q
    let t := b.view.take id side .limit (some price) q
    (r.1.insertRemaining id sequence side price r.2.1).Inv ∧
    (r.1.insertRemaining id sequence side price r.2.1).view =
      t.book.post id sequence side price t.rest := by
  obtain ⟨hview, hrest, _, hinv, hsame⟩ := matchAgainstBook_spec id side .limit (some price) q inv
  intro r t
  rw [hrest, insertRemaining, PriorityBook.post]
  cases hq : Quantity.fromUnits t.rest with
  | none => exact ⟨hinv, hview⟩
  | some quantity =>
    have hid' : ∀ s, id ∉ (r.1.view.orders s).map Entry.id := by
      intro s hm
      rw [hview] at hm
      exact hid s (PriorityBook.take_ids _ _ _ _ _ _ hm)
    have huncrossed : ∀ d ∈ cells (r.1.levels side.contra), side.before d.1 price := by
      have hsorted := (hinv.levels side.contra).entries_pairwise
      rw [← view_orders, hview] at hsorted
      have := PriorityBook.take_uncrossed _ _ _ _ hsorted (Quantity.fromUnits_pos hq)
      rw [← hview, view_orders] at this
      exact fun d hd => this _ (List.mem_map_of_mem hd)
    obtain ⟨hinv', hview'⟩ := insertRestingOrder_spec hinv id sequence side price quantity hid'
      (hsame ▸ hseen) huncrossed
    exact ⟨hinv', by rw [hview', hview]⟩

/-- `submit` without its check for a duplicate id. -/
def submitUnchecked (b : OrderBook) (order : NewOrder) : OrderBook × SubmitResult :=
  if (validate order).isSome then (b, ⟨[], some .invalidOrder, none⟩)
  else
    let (b, remainingUnits, executions) :=
      (b.markSeen order.orderId).matchAgainstBook order.orderId order.side order.type
        order.limitPrice order.quantity.units
    match order.type, order.limitPrice, Quantity.fromUnits remainingUnits with
    | .limit, some limitPrice, some remainingQuantity =>
      (b.insertRestingOrder order.orderId order.sequence order.side limitPrice remainingQuantity,
        ⟨executions, none, some remainingQuantity⟩)
    | _, _, _ => (b, ⟨executions, none, none⟩)

theorem submit_of_unseen {b : OrderBook} {order : NewOrder}
    (hs : order.orderId ∉ b.seenOrderIds) : b.submit order = b.submitUnchecked order := by
  unfold submit submitUnchecked
  exact congrArg (ite _ _) (if_neg hs)

theorem submitUnchecked_limit {b : OrderBook} {order : NewOrder} {price : Price}
    (ht : order.type = .limit) (hp : order.limitPrice = some price) :
    b.submitUnchecked order =
      let r := (b.markSeen order.orderId).matchAgainstBook order.orderId order.side .limit
        (some price) order.quantity.units
      (r.1.insertRemaining order.orderId order.sequence order.side price r.2.1,
        ⟨r.2.2, none, Quantity.fromUnits r.2.1⟩) := by
  have hv : validate order = none := validate_limit ht hp
  simp only [submitUnchecked, hv, ht, hp, insertRemaining, Option.isSome_none, Bool.false_eq_true,
    if_false]
  cases Quantity.fromUnits _ <;> rfl

/-- The accepted path of `submit` for a limit order. -/
theorem submit_limit {b : OrderBook} {order : NewOrder} {price : Price}
    (ht : order.type = .limit) (hp : order.limitPrice = some price)
    (hs : order.orderId ∉ b.seenOrderIds) :
    b.submit order =
      let r := (b.markSeen order.orderId).matchAgainstBook order.orderId order.side .limit
        (some price) order.quantity.units
      (r.1.insertRemaining order.orderId order.sequence order.side price r.2.1,
        ⟨r.2.2, none, Quantity.fromUnits r.2.1⟩) := by
  rw [submit_of_unseen hs, submitUnchecked_limit ht hp]

/-- The accepted path of `submit` for a market order. -/
theorem submit_market {b : OrderBook} {order : NewOrder}
    (ht : order.type = .market) (hp : order.limitPrice = none)
    (hs : order.orderId ∉ b.seenOrderIds) :
    b.submit order =
      let r := (b.markSeen order.orderId).matchAgainstBook order.orderId order.side .market
        none order.quantity.units
      (r.1, ⟨r.2.2, none, none⟩) := by
  have hv : validate order = none := by simp [validate, ht, hp]
  simp only [submit, hv, hs, ht, hp, Option.isSome_none, Bool.false_eq_true, if_false]

theorem submit_spec {b : OrderBook} (inv : b.Inv) (order : NewOrder) :
    (b.submit order).1.Inv ∧ (b.submit order).1.view = (b.view.submit order).1 ∧
      (b.submit order).2 = (b.view.submit order).2 := by
  cases hv : validate order with
  | some e => simp [submit, PriorityBook.submit, hv, inv]
  | none =>
    by_cases hs : order.orderId ∈ b.seenOrderIds
    · have hs' : order.orderId ∈ b.view.seen := hs
      simp [submit, PriorityBook.submit, hv, hs, hs', inv]
    have hs' : order.orderId ∉ b.view.seen := hs
    have hid : ∀ s, order.orderId ∉ ((b.markSeen order.orderId).view.orders s).map Entry.id :=
      fun s hm => hs (@Inv.view_seen b inv s _ (by cases s <;> exact hm))
    obtain ⟨hview, hrest, hexec, hinv, _⟩ := matchAgainstBook_spec order.orderId order.side
      order.type order.limitPrice order.quantity.units (inv.markSeen order.orderId)
    have hvalid := (validate_eq_none order).mp hv
    cases ht : order.type with
    | market =>
      have hp : order.limitPrice = none := by
        rw [ht] at hvalid
        simpa using hvalid
      rw [ht, hp] at hview hexec hinv
      rw [submit_market ht hp hs]
      simp only [PriorityBook.submit, hv, hs', ht, hp, Option.isSome_none, Bool.false_eq_true,
        if_false]
      exact ⟨hinv, hview, by rw [hexec]; rfl⟩
    | limit =>
      obtain ⟨price, hp⟩ := Option.isSome_iff_exists.mp (hvalid.mp ht)
      rw [ht, hp] at hrest hexec
      obtain ⟨hinv', hview'⟩ := match_insert_spec (inv.markSeen order.orderId) order.orderId
        order.sequence order.side price order.quantity.units hid (Finset.mem_insert_self _ _)
      rw [submit_limit ht hp hs]
      simp only [PriorityBook.submit, hv, hs', ht, hp, Option.isSome_none, Bool.false_eq_true,
        if_false]
      exact ⟨hinv', hview', by rw [hexec, hrest]; rfl⟩

theorem cancel_spec {b : OrderBook} (inv : b.Inv) (command : CancelOrder) :
    (b.cancel command).1.Inv ∧ (b.cancel command).1.view = (b.view.cancel command).1 ∧
      (b.cancel command).2 = (b.view.cancel command).2 := by
  cases hl : b.restingOrders.lookup command.orderId with
  | none =>
    have hf := inv.find_none hl
    simp [cancel, PriorityBook.cancel, hl, hf, inv]
  | some loc =>
    obtain ⟨order, hd, hf⟩ := inv.find_some hl
    obtain ⟨hinv, hview, _, hq⟩ := removeRestingOrder_spec inv hl
    simp only [cancel, PriorityBook.cancel, hl, hf]
    exact ⟨hinv, hview, by rw [hq, hd]; rfl⟩

/-- The path of `replace` that gives up the order's place. -/
theorem replace_requeue {b : OrderBook} {command : ReplaceOrder} {loc : OrderLocation}
    {order : RestingOrder} (hl : b.restingOrders.lookup command.orderId = some loc)
    (hd : b.deref loc.it = some order)
    (hc : ¬ (command.newPrice = loc.price ∧ command.newQuantity.units ≤ order.units)) :
    b.replace command =
      let r := (b.removeRestingOrder loc command.orderId).1.matchAgainstBook command.orderId
        loc.side .limit (some command.newPrice) command.newQuantity.units
      (r.1.insertRemaining command.orderId command.sequence loc.side command.newPrice r.2.1,
        ⟨command.orderId, r.2.2, Quantity.fromUnits r.2.1, none⟩) := by
  simp only [replace, hl, hd, Option.elim_some, hc, if_false, insertRemaining]
  cases Quantity.fromUnits _ <;> rfl

theorem replace_spec {b : OrderBook} (inv : b.Inv) (command : ReplaceOrder) :
    (b.replace command).1.Inv ∧ (b.replace command).1.view = (b.view.replace command).1 ∧
      (b.replace command).2 = (b.view.replace command).2 := by
  cases hl : b.restingOrders.lookup command.orderId with
  | none =>
    have hf := inv.find_none hl
    simp [replace, PriorityBook.replace, hl, hf, inv]
  | some loc =>
    obtain ⟨order, hd, hf⟩ := inv.find_some hl
    by_cases hc : command.newPrice = loc.price ∧ command.newQuantity.units ≤ order.units
    · obtain ⟨hinv, hview, _⟩ := reduceInPlace_spec inv hl hd hc.2
      have hc' : command.newPrice = ((loc.price, order) : Entry).1 ∧
        command.newQuantity.units ≤ Entry.units (loc.price, order) := hc
      simp only [replace, PriorityBook.replace, hl, hd, hf, Option.elim_some, if_pos hc, if_pos hc']
      exact ⟨hinv, hview, trivial⟩
    · have hc' : ¬ (command.newPrice = ((loc.price, order) : Entry).1 ∧
        command.newQuantity.units ≤ Entry.units (loc.price, order)) := hc
      obtain ⟨hinv, hview, hseen, _⟩ := removeRestingOrder_spec inv hl
      have hid : ∀ s, command.orderId ∉
          ((b.removeRestingOrder loc command.orderId).1.view.orders s).map Entry.id := by
        intro s
        rw [hview]
        cases s <;> exact UniqueKeys.notMem_filter _
      have hold : command.orderId ∈ b.seenOrderIds :=
        inv.indexed.seen _ ((inv.indexed.lookup _ _).mp hl)
      obtain ⟨hinv', hview'⟩ := match_insert_spec hinv command.orderId command.sequence loc.side
        command.newPrice command.newQuantity.units hid (hseen.symm ▸ hold)
      obtain ⟨_, hrest, hexec, _, _⟩ := matchAgainstBook_spec command.orderId loc.side .limit
        (some command.newPrice) command.newQuantity.units hinv
      rw [hview] at hview' hrest hexec
      rw [replace_requeue hl hd hc]
      simp only [PriorityBook.replace, hf, if_neg hc']
      exact ⟨hinv', hview', by rw [hrest, hexec]⟩

/-- Every command keeps the invariant and is simulated by the priority book. -/
theorem step_spec {b : OrderBook} (inv : b.Inv) (c : Command) :
    (b.step c).1.Inv ∧ (b.step c).1.view = (b.view.step c).1 ∧
      (b.step c).2 = (b.view.step c).2 := by
  cases c with
  | submit order =>
    obtain ⟨hinv, hview, hresult⟩ := submit_spec inv order
    exact ⟨hinv, hview, congrArg Result.submit hresult⟩
  | cancel command =>
    obtain ⟨hinv, hview, hresult⟩ := cancel_spec inv command
    exact ⟨hinv, hview, congrArg Result.cancel hresult⟩
  | replace command =>
    obtain ⟨hinv, hview, hresult⟩ := replace_spec inv command
    exact ⟨hinv, hview, congrArg Result.replace hresult⟩

theorem run_inv (commands : List Command) : (run commands).Inv :=
  Transducer.run_invariant Inv (fun _ c inv => (step_spec inv c).1) inv_empty commands

/-- A run of the order book is, through the view, the run of the priority book. -/
theorem run_view (commands : List Command) :
    (run commands).view = PriorityBook.run commands ∧
      results commands = PriorityBook.results commands := by
  have hstep : ∀ (b : OrderBook) (p : PriorityBook) (c : Command), b.Inv ∧ b.view = p →
      ((b.step c).1.Inv ∧ (b.step c).1.view = (p.step c).1) ∧ (b.step c).2 = (p.step c).2 := by
    rintro b _ c ⟨inv, rfl⟩
    obtain ⟨hinv, hview, hresult⟩ := step_spec inv c
    exact ⟨⟨hinv, hview⟩, hresult⟩
  have hempty : empty.Inv ∧ empty.view = PriorityBook.empty := ⟨inv_empty, rfl⟩
  obtain ⟨⟨_, hview⟩, hresults⟩ :=
    Transducer.simulation (fun (b : OrderBook) p => b.Inv ∧ b.view = p) hstep hempty commands
  exact ⟨hview, hresults⟩

end LowLatencyExchange.OrderBook
