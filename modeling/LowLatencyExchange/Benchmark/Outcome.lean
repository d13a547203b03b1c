import LowLatencyExchange.Benchmark.Core
import LowLatencyExchange.OrderBook.Conservation
import Mathlib.Tactic

/-!
# What a generated workload comes to

The books accept every order of a generated workload. A cancel finds its order unless that has
been executed in full by then, and gives back what was not executed.
-/
namespace LowLatencyExchange

open PriorityBook

namespace OrderBook

theorem ledgerFrom_concat (who : Parties) (b : OrderBook) (commands : List Command) (c : Command) :
    ledgerFrom who b (commands ++ [c]) = (ledgerFrom who b commands).add
      (Ledger.entry who (Transducer.run step b commands).active
        (c, ((Transducer.run step b commands).step c).2)) := by
  induction commands generalizing b with
  | nil => ext <;> simp [ledgerFrom, Ledger.add, Ledger.zero]
  | cons first commands ih =>
    rw [List.cons_append, ledgerFrom, ih, ledgerFrom, Transducer.run_cons]
    ext <;> simp [Ledger.add, add_assoc]

theorem ledger_concat (who : Parties) (commands : List Command) (c : Command) :
    ledger who (commands ++ [c]) = (ledger who commands).add
      (Ledger.entry who (run commands).active (c, ((run commands).step c).2)) :=
  ledgerFrom_concat who empty commands c

/-- What the account of an order leaves is what rests of it. -/
theorem ledger_resting (commands : List Command) (id : OrderId) :
    (ledger (onId id) commands).resting =
      ((run commands).active id).elim 0 fun a => (a.remainingQuantity.units : Int) := by
  have inv := run_inv commands
  have hempty : empty.view.heldUnits (onId id) = 0 := rfl
  have hbalance := ledgerFrom_resting (onId id) inv_empty commands
  rw [hempty, Int.natCast_zero, zero_add] at hbalance
  rw [ledger, ← hbalance, inv.active_eq, ← run, heldUnits_onId inv.valid]
  cases (run commands).view.active id <;> rfl

theorem entry_submit (who : Parties) (held : OrderId → Option ActiveOrder) {order : NewOrder}
    {result : SubmitResult} (htype : order.type = .limit) (h : result.rejection = none) :
    let e := Ledger.entry who held (.submit order, .submit result)
    e.submitted = (if who order.orderId order.side then order.quantity.units else 0 : Nat) ∧
      e.replaced = 0 ∧ e.cancelled = 0 ∧ e.discarded = 0 := by
  simp [Ledger.entry, h, htype]

/-- The cancel of another order. -/
theorem entry_cancel {id : OrderId} (held : OrderId → Option ActiveOrder) {command : CancelOrder}
    (result : CancelResult) (h : command.orderId ≠ id) :
    Ledger.entry (onId id) held (.cancel command, .cancel result) = .zero := by
  have hheld : heldBy (onId id) held command.orderId = false := by
    simp only [heldBy, onId, h, decide_false]
    cases held command.orderId <;> rfl
  simp [Ledger.entry, hheld, Ledger.zero]

/-- A cancel gives back what rests of its order, and is rejected if that is nothing. -/
theorem cancel_resting (commands : List Command) (command : CancelOrder) :
    (((run commands).cancel command).2.cancelledQuantity.elim 0 fun q => (q.units : Int)) =
      (ledger (onId command.orderId) commands).resting ∧
    (((run commands).cancel command).2.rejection = none ↔
      0 < (ledger (onId command.orderId) commands).resting) := by
  have inv := run_inv commands
  rw [ledger_resting, inv.active_eq, (cancel_spec inv command).2.2, PriorityBook.cancel,
    PriorityBook.active]
  cases (run commands).view.find command.orderId with
  | none => simp
  | some x =>
    have hpos := x.2.2.remainingQuantity.pos
    simp [Entry.active]
    omega

theorem mem_acceptedIds {commands : List Command} {id : OrderId} (h : id ∈ acceptedIds commands) :
    ∃ order : NewOrder, .submit order ∈ commands ∧ order.orderId = id := by
  obtain ⟨⟨c, result⟩, hmem, hid⟩ := List.mem_filterMap.mp h
  have hc : c ∈ commands := (List.of_mem_zip hmem).1
  cases c with
  | submit order =>
    simp only [acceptedId] at hid
    split_ifs at hid
    exact ⟨order, hc, Option.some.inj hid⟩
  | cancel command => cases hid
  | replace command => cases hid

/-- A valid order with a fresh id is accepted. -/
theorem submit_accepted {commands : List Command} {order : NewOrder} (hvalid : validate order = none)
    (hfresh : ∀ other : NewOrder, .submit other ∈ commands → other.orderId ≠ order.orderId) :
    ((run commands).step (.submit order)).2.accepted = true := by
  have inv := run_inv commands
  rw [(step_spec inv (.submit order)).2.2, step_accepted_iff]
  refine ⟨hvalid, fun hseen => ?_⟩
  have hmem : order.orderId ∈ (acceptedIds commands).toFinset := by
    rw [← seen_eq_acceptedIds]
    exact hseen
  obtain ⟨other, hother, hid⟩ := mem_acceptedIds (List.mem_toFinset.mp hmem)
  exact hfresh other hother hid

end OrderBook

namespace Benchmark

variable {config : WorkloadConfig} {workload : List WorkloadCommand}

theorem commandsAt_concat (item : WorkloadCommand) (symbol : Nat) :
    commandsAt (workload ++ [item]) symbol =
      commandsAt workload symbol ++
        if item.symbolIndex.toNat = symbol then [item.command] else [] := by
  rw [commandsAt, keyed, List.map_append, Transducer.inputsAt_append, List.map_singleton,
    Transducer.inputsAt_singleton]
  rfl

theorem mem_commandsAt {symbol : UInt64} {c : Command} :
    c ∈ commandsAt workload symbol.toNat ↔ ⟨symbol, c⟩ ∈ workload := by
  rw [commandsAt, Transducer.mem_inputsAt, keyed, List.mem_map]
  constructor
  · rintro ⟨⟨symbol', c'⟩, hmem, heq⟩
    obtain ⟨hsymbol, rfl⟩ := Prod.mk.inj heq
    obtain rfl := UInt64.toNat_inj.mp hsymbol
    exact hmem
  · exact fun hmem => ⟨_, hmem, rfl⟩

theorem AllFit.of_concat {item : WorkloadCommand} (h : AllFit config (workload ++ [item])) :
    AllFit config workload ∧ Fits config workload item := by
  refine ⟨fun before item' after heq => ?_, h workload item [] rfl⟩
  exact h before item' (after ++ [item]) (by rw [heq, List.append_assoc, List.cons_append])

theorem Fits.submit_accepted {symbol : UInt64} {order : NewOrder}
    (h : Fits config workload ⟨symbol, .submit order⟩) :
    ((OrderBook.run (commandsAt workload symbol.toNat)).step (.submit order)).2.accepted = true := by
  obtain ⟨-, -, -, hvalid, hfresh⟩ := h
  refine OrderBook.submit_accepted hvalid fun other hother hid => ?_
  exact hfresh symbol ⟨other, mem_commandsAt.mp hother, hid⟩

/-- The account of an order that was not cancelled: its quantity, and what was executed of it. -/
structure Account (workload : List WorkloadCommand) (symbol : UInt64) (id : OrderId) (x : Ledger) :
    Prop where
  replaced : x.replaced = 0
  cancelled : x.cancelled = 0
  discarded : x.discarded = 0
  created : ∀ order : NewOrder, ⟨symbol, .submit order⟩ ∈ workload → order.orderId = id →
    x.submitted = order.quantity.units
  absent : ¬ Created workload symbol id → x.submitted = 0

/-- A step that books nothing for the order but executions. -/
theorem Account.skip {symbol : UInt64} {id : OrderId} {x e : Ledger}
    (h : Account workload symbol id x) {item : WorkloadCommand}
    (hitem : ∀ order : NewOrder, item = ⟨symbol, .submit order⟩ → order.orderId ≠ id)
    (he : e.submitted = 0 ∧ e.replaced = 0 ∧ e.cancelled = 0 ∧ e.discarded = 0) :
    Account (workload ++ [item]) symbol id (x.add e) := by
  obtain ⟨hsubmitted, hreplaced, hcancelled, hdiscarded⟩ := he
  refine ⟨?_, ?_, ?_, fun order hmem hid => ?_, fun hnone => ?_⟩ <;> simp only [Ledger.add]
  · rw [h.replaced, hreplaced, add_zero]
  · rw [h.cancelled, hcancelled, add_zero]
  · rw [h.discarded, hdiscarded, add_zero]
  · rw [hsubmitted, add_zero]
    rcases List.mem_append.mp hmem with hmem | hmem
    · exact h.created order hmem hid
    · exact absurd hid (hitem order (List.mem_singleton.mp hmem).symm)
  · rw [hsubmitted, add_zero]
    exact h.absent fun hcreated => hnone (hcreated.append _)

/-- The order itself is created. -/
theorem Account.create {symbol : UInt64} {id : OrderId} {x e : Ledger}
    (h : Account workload symbol id x) (hnew : ¬ Created workload symbol id) {order : NewOrder}
    (hid : order.orderId = id) (hsubmitted : e.submitted = order.quantity.units)
    (he : e.replaced = 0 ∧ e.cancelled = 0 ∧ e.discarded = 0) :
    Account (workload ++ [⟨symbol, .submit order⟩]) symbol id (x.add e) := by
  obtain ⟨hreplaced, hcancelled, hdiscarded⟩ := he
  refine ⟨?_, ?_, ?_, fun other hmem hother => ?_, fun hnone => ?_⟩ <;> simp only [Ledger.add]
  · rw [h.replaced, hreplaced, add_zero]
  · rw [h.cancelled, hcancelled, add_zero]
  · rw [h.discarded, hdiscarded, add_zero]
  · rcases List.mem_append.mp hmem with hmem | hmem
    · exact absurd ⟨other, hmem, hother⟩ hnew
    · simp only [List.mem_singleton, WorkloadCommand.mk.injEq, Command.submit.injEq, true_and] at hmem
      rw [h.absent hnew, hsubmitted, hmem, zero_add]
  · exact absurd ⟨order, by simp, hid⟩ hnone

theorem account_of_fit (h : AllFit config workload) (symbol : UInt64) (id : OrderId)
    (hlive : ¬ Cancelled workload id) :
    Account workload symbol id (OrderBook.ledger (onId id) (commandsAt workload symbol.toNat)) := by
  induction workload using List.reverseRecOn with
  | nil => exact ⟨rfl, rfl, rfl, by simp, fun _ => rfl⟩
  | append_singleton workload item ih =>
    obtain ⟨hfit, hitem⟩ := h.of_concat
    have haccount := ih hfit fun ⟨symbol, cancel, hmem, hid⟩ =>
      hlive ⟨symbol, cancel, List.mem_append_left _ hmem, hid⟩
    obtain ⟨itemSymbol, command⟩ := item
    rw [commandsAt_concat]
    by_cases hsymbol : itemSymbol = symbol
    · subst hsymbol
      rw [if_pos rfl, OrderBook.ledger_concat]
      cases command with
      | submit order =>
        have haccepted := Option.isNone_iff_eq_none.mp hitem.submit_accepted
        obtain ⟨-, -, htype, -, hfresh⟩ := hitem
        obtain ⟨hsubmitted, he⟩ := OrderBook.entry_submit (onId id)
          (OrderBook.run (commandsAt workload itemSymbol.toNat)).active htype haccepted
        by_cases hown : order.orderId = id
        · exact haccount.create (hown ▸ hfresh itemSymbol) hown
            (hsubmitted.trans (by simp [onId, hown])) he
        · refine haccount.skip (fun other heq => ?_) ⟨hsubmitted.trans (by simp [onId, hown]), he⟩
          simp only [WorkloadCommand.mk.injEq, Command.submit.injEq, true_and] at heq
          exact heq ▸ hown
      | cancel command =>
        have hother : command.orderId ≠ id := fun hid =>
          hlive ⟨itemSymbol, command, by simp, hid⟩
        refine haccount.skip (fun order heq => ?_) ?_
        · cases heq
        · rw [OrderBook.step, OrderBook.entry_cancel _ _ hother]
          exact ⟨rfl, rfl, rfl, rfl⟩
      | replace command => exact hitem.2.elim
    · have hother : itemSymbol.toNat ≠ symbol.toNat := fun heq =>
        hsymbol (UInt64.toNat_inj.mp heq)
      have hzero : (OrderBook.ledger (onId id) (commandsAt workload symbol.toNat)).add .zero =
          OrderBook.ledger (onId id) (commandsAt workload symbol.toNat) := by
        ext <;> simp [Ledger.add, Ledger.zero]
      rw [if_neg hother, List.append_nil, ← hzero]
      exact haccount.skip
        (fun order heq => absurd (congrArg WorkloadCommand.symbolIndex heq) hsymbol)
        ⟨rfl, rfl, rfl, rfl⟩

/-- What a command of a workload comes to, on the book that the commands before it lead to. -/
def Comes (before : List WorkloadCommand) (item : WorkloadCommand) : Prop :=
  let commands := commandsAt before item.symbolIndex.toNat
  match item.command with
  | .submit order => ((OrderBook.run commands).submit order).2.rejection = none
  | .cancel cancel =>
    ∃ order : NewOrder, ⟨item.symbolIndex, .submit order⟩ ∈ before ∧
      order.orderId = cancel.orderId ∧
      let executed := (OrderBook.ledger (onId cancel.orderId) commands).executed
      let result := ((OrderBook.run commands).cancel cancel).2
      executed ≤ order.quantity.units ∧
      (result.rejection = none ↔ executed < order.quantity.units) ∧
      (result.cancelledQuantity.elim 0 fun q => (q.units : Int)) = order.quantity.units - executed
  | .replace _ => False

theorem Fits.comes (h : AllFit config workload) {item : WorkloadCommand}
    (hitem : Fits config workload item) : Comes workload item := by
  obtain ⟨symbol, command⟩ := item
  cases command with
  | submit order => exact Option.isNone_iff_eq_none.mp hitem.submit_accepted
  | replace command => exact hitem.2.elim
  | cancel cancel =>
    obtain ⟨-, ⟨order, hmem, hid⟩, hlive⟩ := hitem
    have haccount := account_of_fit h symbol cancel.orderId hlive
    obtain ⟨hquantity, hrejection⟩ :=
      OrderBook.cancel_resting (commandsAt workload symbol.toNat) cancel
    have hresting : (OrderBook.ledger (onId cancel.orderId)
        (commandsAt workload symbol.toNat)).resting = order.quantity.units -
          (OrderBook.ledger (onId cancel.orderId) (commandsAt workload symbol.toNat)).executed := by
      rw [Ledger.resting, haccount.created order hmem hid, haccount.replaced, haccount.cancelled,
        haccount.discarded]
      omega
    have hnonneg : 0 ≤ (OrderBook.ledger (onId cancel.orderId)
        (commandsAt workload symbol.toNat)).resting := by
      rw [OrderBook.ledger_resting]
      cases (OrderBook.run (commandsAt workload symbol.toNat)).active cancel.orderId with
      | none => exact le_rfl
      | some active => exact Int.natCast_nonneg _
    rw [hresting] at hquantity hrejection hnonneg
    unfold Comes
    dsimp only
    refine ⟨order, hmem, hid, by omega, hrejection.trans ?_, hquantity⟩
    omega

/-- Only cancels are rejected. -/
theorem total_rejected {symbolCount : Nat} (h : AllFit config workload)
    (hrange : InRange symbolCount workload) :
    total symbolCount isRejected workload = total symbolCount isRejectedCancel workload ∧
    total symbolCount isAccepted workload + total symbolCount isRejected workload =
      workload.length := by
  induction workload using List.reverseRecOn with
  | nil => simp [total, commandsAt, keyed, Transducer.inputsAt, OrderBook.trace, Transducer.trace]
  | append_singleton workload item ih =>
    obtain ⟨hfit, hitem⟩ := h.of_concat
    obtain ⟨hrejected, hlength⟩ := ih hfit fun item hmem =>
      hrange item (List.mem_append_left _ hmem)
    have hsymbol := hrange item (by simp)
    have hcounted := fun w => @total_concat symbolCount workload w item hsymbol
    have hsubmit : ∀ order, item.command = .submit order →
        ((OrderBook.run (commandsAt workload item.symbolIndex.toNat)).step
          item.command).2.accepted = true := by
      obtain ⟨symbol, command⟩ := item
      rintro order rfl
      exact hitem.submit_accepted
    have hreplace := hitem.2
    rw [hcounted, hcounted, hcounted, List.length_append, List.length_singleton]
    generalize ((OrderBook.run _).step item.command).2 = result at hsubmit
    have hone : isAccepted item.command result + isRejected item.command result = 1 := by
      unfold isAccepted isRejected
      cases result.accepted <;> rfl
    have honly : isRejected item.command result = isRejectedCancel item.command result := by
      unfold isRejected isRejectedCancel
      cases hcommand : item.command with
      | submit order => simp [hsubmit order hcommand]
      | cancel cancel => simp [MatchingEngineService.isCancel]
      | replace command =>
        rw [hcommand] at hreplace
        exact hreplace.elim
    omega

theorem AllFit.inRange (h : AllFit config workload) : InRange config.symbolCount.toNat workload := by
  induction workload using List.reverseRecOn with
  | nil => exact fun item hmem => absurd hmem List.not_mem_nil
  | append_singleton workload item ih =>
    obtain ⟨hfit, hitem⟩ := h.of_concat
    refine fun item' hmem => (List.mem_append.mp hmem).elim (ih hfit item') fun hlast => ?_
    obtain rfl := List.mem_singleton.mp hlast
    obtain ⟨symbol, command⟩ := item'
    cases command with
    | submit order => exact UInt64.lt_iff_toNat_lt.mp hitem.2.1
    | cancel cancel =>
      obtain ⟨-, ⟨order, hcreated, -⟩, -⟩ := hitem
      exact ih hfit ⟨symbol, .submit order⟩ hcreated
    | replace command => exact hitem.2.elim

/-- On a generated workload the core benchmark rejects nothing but cancels. A cancel is rejected
when the order that it names, which is of its symbol, has been executed in full, and gives back
the quantity that was not executed otherwise. -/
theorem core_benchmark_outcome (config : WorkloadConfig) (random : Nat → UInt64)
    (maxSize maxBooks warmup : UInt64) (nanoseconds : Nat → UInt64) (hadmitted : config.admitted)
    (hlevels : config.bookLevels ≤ 100000) (hsize : config.commandCount ≤ maxSize)
    (hbooks : config.symbolCount ≤ maxBooks) :
    ∃ workload result, makeWorkload config random maxSize = some workload ∧
      runCoreBenchmark maxBooks workload config.symbolCount warmup nanoseconds = some result ∧
      result.rejectedCommands = result.rejectedCancels ∧
      result.acceptedCommands + result.rejectedCommands = config.commandCount ∧
      ∀ before item after, workload = before ++ item :: after → Comes before item := by
  obtain ⟨workload, hworkload, hwell⟩ := makeWorkload_wellFormed hadmitted hlevels hsize random
  have hcount : config.commandCount.toNat ≠ 0 := by
    intro hzero
    have hcount : config.commandCount = 0 := UInt64.toNat_inj.mp hzero
    simp [WorkloadConfig.admitted, hcount] at hadmitted
  have hne : workload ≠ [] := by
    rintro rfl
    exact hcount hwell.length.symm
  obtain ⟨m, h, hresult⟩ :=
    runCoreBenchmark_measured warmup nanoseconds hne hwell.fits.inRange hbooks
  obtain ⟨hrejected, hsum⟩ := total_rejected hwell.fits hwell.fits.inRange
  refine ⟨workload, _, hworkload, hresult, ?_, ?_, fun before item after heq => ?_⟩
  · exact h.rejectedCommands.trans ((congrArg UInt64.ofNat hrejected).trans h.rejectedCancels.symm)
  · dsimp only
    rw [h.acceptedCommands, h.rejectedCommands, ← UInt64.ofNat_add, hsum, hwell.length,
      UInt64.ofNat_toNat]
  · refine Fits.comes (fun before' item' after' heq' => ?_) (hwell.fits before item after heq)
    exact hwell.fits before' item' (after' ++ item :: after) (by rw [heq, heq', List.append_assoc]; rfl)

theorem core_benchmark_default : ∃ workload result,
    makeWorkload ⟨100000, 1, 32, 20, 10⟩ (fun i => UInt64.ofNat i) 0x1FFFFFFFFFFFFFF =
      some workload ∧
    runCoreBenchmark 1000 workload 1 10000 (fun _ => 1) = some result ∧
    result.rejectedCommands = result.rejectedCancels := by
  obtain ⟨workload, result, hworkload, hresult, hrejected, -⟩ :=
    core_benchmark_outcome ⟨100000, 1, 32, 20, 10⟩ (fun i => UInt64.ofNat i) 0x1FFFFFFFFFFFFFF 1000
      10000 (fun _ => 1) (by decide) (by decide) (by decide) (by decide)
  exact ⟨workload, result, hworkload, hresult, hrejected⟩

end Benchmark

end LowLatencyExchange
