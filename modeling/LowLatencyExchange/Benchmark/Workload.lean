import LowLatencyExchange.Protocol.Commands
import LowLatencyExchange.Library.SwapRemove
import Mathlib.Tactic

/-!
# Benchmark workloads

`make_workload` over an arbitrary stream of 64-bit values in the place of the seeded
generator. The loop keeps the orders that it may still cancel in a vector and derives prices
from a level by signed arithmetic. Where the source leaves the behaviour undefined (a signed
result out of range, an empty optional dereferenced), or throws since a vector is to hold more than
it can, the model has no result.
-/
namespace LowLatencyExchange.Benchmark

open SwapRemove

/-- The seed is not part of it: the stream takes its place. -/
structure WorkloadConfig where
  commandCount : UInt64
  symbolCount : UInt64
  bookLevels : UInt64
  cancelRatePercent : UInt32
  crossingRatePercent : UInt32

structure WorkloadCommand where
  symbolIndex : UInt64
  command : Command
  deriving DecidableEq

structure ActiveOrder where
  symbolIndex : UInt64
  orderId : OrderId
  deriving DecidableEq

/-- The variables of the loop, with the number of values taken from the stream. -/
structure Generator where
  draws : Nat := 0
  workload : List WorkloadCommand := []
  activeOrders : List ActiveOrder := []
  nextOrderId : UInt64 := 1
  nextSequence : UInt64 := 1

/-- The guard of `make_workload`, passed. -/
def WorkloadConfig.admitted (config : WorkloadConfig) : Bool :=
  !(config.commandCount == 0 || config.symbolCount == 0 || config.bookLevels == 0 ||
    100 < config.cancelRatePercent || 100 < config.crossingRatePercent)

/-- A signed 64-bit result. -/
def int64 (n : Int) : Option Int := if -2 ^ 63 ≤ n ∧ n < 2 ^ 63 then some n else none

def orderPrice (crossing buy : Bool) (level : Int) : Option Int :=
  if crossing then (if buy then int64 (100002 + level) else int64 (100000 - level))
  else (if buy then int64 (100000 - level) else int64 (100002 + level))

section Loop

variable (config : WorkloadConfig) (random : Nat → UInt64)

/-- The branch that cancels an active order. The value that chose the branch is drawn. -/
def createCancel (g : Generator) : Option Generator := do
  let activeIndex := (random g.draws).toNat % g.activeOrders.length
  let active ← g.activeOrders[activeIndex]?
  let sequence ← SequenceNumber.fromValue g.nextSequence.toNat
  some { g with
    draws := g.draws + 1
    workload := g.workload ++ [⟨active.symbolIndex, .cancel ⟨sequence, active.orderId⟩⟩]
    activeOrders := swapRemove g.activeOrders activeIndex
    nextSequence := g.nextSequence + 1 }

/-- The branch that makes a limit order: symbol, side, crossing, level and quantity are drawn
in this order. -/
def createOrder (g : Generator) : Option Generator := do
  let symbolIndex := random g.draws % config.symbolCount
  let buy := random (g.draws + 1) &&& 1 == 0
  let crossing := decide (random (g.draws + 2) % 100 < config.crossingRatePercent.toUInt64)
  let level := Protocol.toInt64 (random (g.draws + 3) % config.bookLevels).toNat
  let price ← orderPrice crossing buy level
  let orderId ← OrderId.fromValue g.nextOrderId.toNat
  let sequence ← SequenceNumber.fromValue g.nextSequence.toNat
  let quantity ← Quantity.fromUnits (1 + random (g.draws + 4) % 100).toNat
  let order : NewOrder :=
    ⟨sequence, orderId, if buy then .buy else .sell, .limit, quantity, Price.fromTicks price⟩
  some { g with
    draws := g.draws + 5
    workload := g.workload ++ [⟨symbolIndex, .submit order⟩]
    activeOrders := g.activeOrders ++ [⟨symbolIndex, orderId⟩]
    nextOrderId := g.nextOrderId + 1
    nextSequence := g.nextSequence + 1 }

/-- One pass of the loop. Only when an order is active is a value drawn for the choice. -/
def createCommand (g : Generator) : Option Generator :=
  if g.activeOrders.isEmpty then createOrder config random g
  else if random g.draws % 100 < config.cancelRatePercent.toUInt64 then
    createCancel random { g with draws := g.draws + 1 }
  else createOrder config random { g with draws := g.draws + 1 }

def createCommands : Nat → Generator → Option Generator
  | 0, g => some g
  | count + 1, g => (createCommand config random g).bind (createCommands count)

/-- `maxSize` is the `max_size()` of the two vectors, the smaller one. `reserve` throws above it. -/
def makeWorkload (maxSize : UInt64) : Option (List WorkloadCommand) :=
  if config.admitted then
    if config.commandCount ≤ maxSize then
      (createCommands config random config.commandCount.toNat {}).map Generator.workload
    else none
  else some []

/-! ## Draws -/

/-- The positions in the stream at which the draws of the orders begin, from a position on and
with a number of active orders. -/
def orderDraws : Nat → Nat → Nat → List Nat
  | 0, _, _ => []
  | count + 1, draws, active =>
    if active = 0 then draws :: orderDraws count (draws + 5) 1
    else if random draws % 100 < config.cancelRatePercent.toUInt64 then
      orderDraws count (draws + 2) (active - 1)
    else (draws + 1) :: orderDraws count (draws + 6) (active + 1)

/-- The level drawn at a position leaves its order a price: more than zero ticks, and no signed
overflow on the way. From `2 ^ 63` on a level is cast to a negative number. -/
def Priced (draws : Nat) : Prop :=
  let buy := random (draws + 1) &&& 1 == 0
  let crossing := decide (random (draws + 2) % 100 < config.crossingRatePercent.toUInt64)
  let level := (random (draws + 3) % config.bookLevels).toNat
  if crossing = buy then level < 2 ^ 63 - 100002 ∨ 2 ^ 64 - 100002 < level
  else level < 100000 ∨ 2 ^ 63 + 100000 < level

/-- Every order of the workload is priced. -/
def AllPriced : Prop :=
  ∀ draws ∈ orderDraws config random config.commandCount.toNat 0 0, Priced config random draws

end Loop

/-! ## Well-formed workloads -/

/-- A new order of a symbol gave an id. -/
def Created (workload : List WorkloadCommand) (symbolIndex : UInt64) (id : OrderId) : Prop :=
  ∃ order : NewOrder, ⟨symbolIndex, .submit order⟩ ∈ workload ∧ order.orderId = id

def Cancelled (workload : List WorkloadCommand) (id : OrderId) : Prop :=
  ∃ symbolIndex, ∃ cancel : CancelOrder,
    ⟨symbolIndex, .cancel cancel⟩ ∈ workload ∧ cancel.orderId = id

/-- A command continues the commands before it. -/
def Fits (config : WorkloadConfig) (before : List WorkloadCommand) (item : WorkloadCommand) : Prop :=
  item.command.sequence.value = before.length + 1 ∧
  match item.command with
  | .submit order =>
    item.symbolIndex < config.symbolCount ∧ order.type = .limit ∧ validate order = none ∧
      ∀ symbolIndex, ¬ Created before symbolIndex order.orderId
  | .cancel cancel =>
    Created before item.symbolIndex cancel.orderId ∧ ¬ Cancelled before cancel.orderId
  | .replace _ => False

def AllFit (config : WorkloadConfig) (workload : List WorkloadCommand) : Prop :=
  ∀ before item after, workload = before ++ item :: after → Fits config before item

structure WellFormed (config : WorkloadConfig) (workload : List WorkloadCommand) : Prop where
  length : workload.length = config.commandCount.toNat
  fits : AllFit config workload

variable {config : WorkloadConfig} {random : Nat → UInt64} {g : Generator}

theorem AllFit.snoc {workload : List WorkloadCommand} (h : AllFit config workload)
    {item : WorkloadCommand} (hitem : Fits config workload item) :
    AllFit config (workload ++ [item]) := by
  intro before item' after heq
  rcases List.eq_nil_or_concat after with rfl | ⟨after', last, rfl⟩
  · obtain ⟨rfl, hlast⟩ := List.append_inj' heq rfl
    cases hlast
    exact hitem
  · have hsplit : workload ++ [item] = (before ++ item' :: after') ++ [last] := by simpa using heq
    exact h before item' after' (List.append_inj' hsplit rfl).1

theorem Created.append {workload : List WorkloadCommand} {symbolIndex : UInt64} {id : OrderId}
    (h : Created workload symbolIndex id) (more : List WorkloadCommand) :
    Created (workload ++ more) symbolIndex id := by
  obtain ⟨order, hmem, hid⟩ := h
  exact ⟨order, List.mem_append_left _ hmem, hid⟩

/-- Only created orders are cancelled. -/
theorem AllFit.created_of_cancelled {workload : List WorkloadCommand} (h : AllFit config workload)
    {id : OrderId} (hc : Cancelled workload id) :
    ∃ symbolIndex, Created workload symbolIndex id := by
  obtain ⟨symbolIndex, cancel, hmem, rfl⟩ := hc
  obtain ⟨before, after, rfl⟩ := List.append_of_mem hmem
  obtain ⟨-, hcreated, -⟩ := h before _ after rfl
  exact ⟨symbolIndex, hcreated.append _⟩

/-- What the loop keeps: the commands so far fit, the counters follow their number, and the
active orders are created, not cancelled and distinct. -/
structure Inv (config : WorkloadConfig) (g : Generator) : Prop where
  fits : AllFit config g.workload
  sequence : g.nextSequence = UInt64.ofNat (g.workload.length + 1)
  orderIds : ∃ created ≤ g.workload.length, g.nextOrderId = UInt64.ofNat (created + 1) ∧
    ∀ symbolIndex id, Created g.workload symbolIndex id → id.value ≤ created
  active : ∀ a ∈ g.activeOrders,
    Created g.workload a.symbolIndex a.orderId ∧ ¬ Cancelled g.workload a.orderId
  distinct : (g.activeOrders.map ActiveOrder.orderId).Nodup

theorem inv_start (config : WorkloadConfig) : Inv config {} where
  fits before item after h := by simp at h
  sequence := rfl
  orderIds := ⟨0, le_rfl, rfl, by rintro _ _ ⟨_, hmem, _⟩; simp at hmem⟩
  active a ha := by simp at ha
  distinct := List.nodup_nil

/-- The number of values drawn is no part of the invariant. -/
theorem Inv.draw (h : Inv config g) (n : Nat) : Inv config { g with draws := n } :=
  ⟨h.fits, h.sequence, h.orderIds, h.active, h.distinct⟩

theorem sequence_of_room (h : Inv config g) (hroom : g.workload.length + 1 < 2 ^ 64) :
    ∃ sequence, SequenceNumber.fromValue g.nextSequence.toNat = some sequence ∧
      sequence.value = g.workload.length + 1 := by
  have hvalue : g.nextSequence.toNat = g.workload.length + 1 := by
    rw [h.sequence, UInt64.toNat_ofNat_of_lt' hroom]
  exact ⟨⟨g.workload.length + 1, by omega, hroom⟩,
    by rw [hvalue]; exact dif_pos ⟨by omega, hroom⟩, rfl⟩

theorem nextSequence_succ (h : Inv config g) (item : WorkloadCommand) :
    g.nextSequence + 1 = UInt64.ofNat ((g.workload ++ [item]).length + 1) := by
  rw [h.sequence, List.length_append, List.length_singleton,
    UInt64.ofNat_add (g.workload.length + 1) 1]
  rfl

/-- Cancelling keeps the invariant: the active orders lose one that was created and not yet
cancelled. -/
theorem createCancel_inv (h : Inv config g) (hactive : g.activeOrders ≠ [])
    (hroom : g.workload.length + 1 < 2 ^ 64) :
    ∃ g', createCancel random g = some g' ∧ Inv config g' ∧
      g'.workload.length = g.workload.length + 1 := by
  obtain ⟨sequence, hsequence, hvalue⟩ := sequence_of_room h hroom
  have hindex : (random g.draws).toNat % g.activeOrders.length < g.activeOrders.length :=
    Nat.mod_lt _ (List.length_pos_of_ne_nil hactive)
  set index := (random g.draws).toNat % g.activeOrders.length
  set active := g.activeOrders[index]
  have hperm := cons_swapRemove_perm g.activeOrders hindex
  have hmem : ∀ a ∈ swapRemove g.activeOrders index, a ∈ g.activeOrders := fun a ha =>
    hperm.subset (List.mem_cons_of_mem _ ha)
  have hdistinct := ((hperm.map ActiveOrder.orderId).nodup_iff).mpr h.distinct
  rw [List.map_cons, List.nodup_cons] at hdistinct
  obtain ⟨hcreated, hlive⟩ := h.active active (List.getElem_mem hindex)
  have hresult : createCancel random g = some { g with
      draws := g.draws + 1
      workload := g.workload ++ [⟨active.symbolIndex, .cancel ⟨sequence, active.orderId⟩⟩]
      activeOrders := swapRemove g.activeOrders index
      nextSequence := g.nextSequence + 1 } := by
    have hget : g.activeOrders[index]? = some active := List.getElem?_eq_getElem hindex
    simp only [createCancel, hsequence, Option.bind_eq_bind, Option.bind_some]
    rw [hget]
    rfl
  refine ⟨_, hresult, ⟨h.fits.snoc ⟨hvalue, hcreated, hlive⟩, nextSequence_succ h _, ?_, ?_,
    hdistinct.2⟩, by simp⟩
  · obtain ⟨created, hle, hnext, hbound⟩ := h.orderIds
    refine ⟨created, by simp; omega, hnext, ?_⟩
    rintro symbolIndex id ⟨order, hin, hid⟩
    have hold : (⟨symbolIndex, .submit order⟩ : WorkloadCommand) ∈ g.workload := by
      simpa using hin
    exact hbound symbolIndex id ⟨order, hold, hid⟩
  · intro a ha
    obtain ⟨hcreated', hlive'⟩ := h.active a (hmem a ha)
    refine ⟨hcreated'.append _, ?_⟩
    rintro ⟨symbolIndex, cancel, hin, hid⟩
    rcases List.mem_append.mp hin with hin | hin
    · exact hlive' ⟨symbolIndex, cancel, hin, hid⟩
    · -- the one just cancelled is no longer active
      have hcancel : cancel.orderId = active.orderId := by
        simp only [List.mem_singleton, WorkloadCommand.mk.injEq, Command.cancel.injEq] at hin
        rw [hin.2]
      exact hdistinct.1 (hcancel ▸ hid ▸ List.mem_map_of_mem ha)

theorem int64_price (n : Int) :
    (∃ price, int64 n = some price ∧ (Price.fromTicks price).isSome) ↔ 0 < n ∧ n < 2 ^ 63 := by
  have hprice : (Price.fromTicks n).isSome ↔ 0 < n ∧ n < 2 ^ 63 := by
    rw [Price.fromTicks]
    split_ifs with h
    · exact iff_of_true rfl h
    · exact iff_of_false Bool.false_ne_true h
  rw [int64]
  split_ifs with hrange
  · rw [← hprice]
    simp
  · refine iff_of_false (by simp) ?_
    omega

theorem raised_price {level : Nat} (hlt : level < 2 ^ 64) :
    (∃ price, int64 (100002 + Protocol.toInt64 level) = some price ∧
      (Price.fromTicks price).isSome) ↔ level < 2 ^ 63 - 100002 ∨ 2 ^ 64 - 100002 < level := by
  rw [int64_price, Protocol.toInt64]
  split_ifs <;> omega

theorem lowered_price {level : Nat} (hlt : level < 2 ^ 64) :
    (∃ price, int64 (100000 - Protocol.toInt64 level) = some price ∧
      (Price.fromTicks price).isSome) ↔ level < 100000 ∨ 2 ^ 63 + 100000 < level := by
  rw [int64_price, Protocol.toInt64]
  split_ifs <;> omega

/-- An order is priced when the arithmetic gives it a price. -/
theorem priced_iff (draws : Nat) : Priced config random draws ↔
    ∃ price, orderPrice (decide (random (draws + 2) % 100 < config.crossingRatePercent.toUInt64))
        (random (draws + 1) &&& 1 == 0)
        (Protocol.toInt64 (random (draws + 3) % config.bookLevels).toNat) = some price ∧
      (Price.fromTicks price).isSome := by
  have hlt := (random (draws + 3) % config.bookLevels).toNat_lt
  rw [Priced]
  generalize (random (draws + 1) &&& 1 == 0) = buy
  generalize decide (random (draws + 2) % 100 < config.crossingRatePercent.toUInt64) = crossing
  cases crossing <;> cases buy
  · exact (raised_price hlt).symm
  · exact (lowered_price hlt).symm
  · exact (lowered_price hlt).symm
  · exact (raised_price hlt).symm

theorem drawn_quantity (draw : UInt64) :
    ∃ quantity, Quantity.fromUnits (1 + draw % 100).toNat = some quantity := by
  have hvalue : (1 + draw % 100).toNat = 1 + draw.toNat % 100 := by
    have hone : (1 : UInt64).toNat = 1 := rfl
    have hmod : (draw % 100).toNat = draw.toNat % 100 := UInt64.toNat_mod ..
    rw [UInt64.toNat_add, hmod, hone]
    omega
  rw [hvalue]
  exact ⟨_, dif_pos ⟨by omega, by omega⟩⟩

/-- A new order keeps the invariant: its id is above those given so far. -/
theorem createOrder_inv (hpriced : Priced config random g.draws)
    (hsymbols : config.symbolCount ≠ 0) (h : Inv config g)
    (hroom : g.workload.length + 1 < 2 ^ 64) :
    ∃ g', createOrder config random g = some g' ∧ Inv config g' ∧
      g'.workload.length = g.workload.length + 1 := by
  obtain ⟨sequence, hsequence, hvalue⟩ := sequence_of_room h hroom
  obtain ⟨created, hle, hnext, hbound⟩ := h.orderIds
  obtain ⟨quantity, hquantity⟩ := drawn_quantity (random (g.draws + 4))
  obtain ⟨price, hprice, hsome⟩ := (priced_iff _).mp hpriced
  set symbolIndex := random g.draws % config.symbolCount with hsymbol
  set buy := random (g.draws + 1) &&& 1 == 0 with hbuy
  set crossing := decide (random (g.draws + 2) % 100 < config.crossingRatePercent.toUInt64)
    with hcrossing
  let orderId : OrderId := ⟨created + 1, by omega, by omega⟩
  have horderId : OrderId.fromValue g.nextOrderId.toNat = some orderId := by
    rw [hnext, UInt64.toNat_ofNat_of_lt' (by omega : created + 1 < 2 ^ 64)]
    exact dif_pos ⟨by omega, by omega⟩
  let order : NewOrder :=
    ⟨sequence, orderId, if buy then .buy else .sell, .limit, quantity, Price.fromTicks price⟩
  have hresult : createOrder config random g = some { g with
      draws := g.draws + 5
      workload := g.workload ++ [⟨symbolIndex, .submit order⟩]
      activeOrders := g.activeOrders ++ [⟨symbolIndex, orderId⟩]
      nextOrderId := g.nextOrderId + 1
      nextSequence := g.nextSequence + 1 } := by
    simp only [createOrder, ← hbuy, ← hcrossing, hprice, horderId, hsequence, hquantity,
      Option.bind_eq_bind, Option.bind_some]
    rfl
  have hfresh : ∀ symbolIndex, ¬ Created g.workload symbolIndex orderId := by
    intro symbolIndex hcreated
    have hid : created + 1 ≤ created := hbound symbolIndex orderId hcreated
    omega
  have hlive : ¬ Cancelled g.workload orderId := fun hc =>
    (h.fits.created_of_cancelled hc).elim hfresh
  have hsymbolLt : symbolIndex < config.symbolCount := by
    have hpos : 0 < config.symbolCount.toNat :=
      Nat.pos_of_ne_zero fun hzero => hsymbols (UInt64.toNat_inj.mp hzero)
    rw [UInt64.lt_iff_toNat_lt, hsymbol, UInt64.toNat_mod]
    exact Nat.mod_lt _ hpos
  have hvalid : validate order = none := (validate_eq_none order).mpr (by simp [order, hsome])
  have hnotCancel : ∀ id, Cancelled (g.workload ++ [⟨symbolIndex, .submit order⟩]) id →
      Cancelled g.workload id := by
    rintro id ⟨s, cancel, hin, hid⟩
    exact ⟨s, cancel, by simpa using hin, hid⟩
  refine ⟨_, hresult, ⟨h.fits.snoc ⟨hvalue, hsymbolLt, rfl, hvalid, hfresh⟩,
    nextSequence_succ h _, ⟨created + 1, by simpa using hle, ?_, ?_⟩, ?_, ?_⟩, by simp⟩
  · simp only [hnext]
    exact (UInt64.ofNat_add (created + 1) 1).symm
  · rintro s id ⟨order', hin, rfl⟩
    rcases List.mem_append.mp hin with hin | hin
    · have hold := hbound s order'.orderId ⟨order', hin, rfl⟩
      omega
    · simp only [List.mem_singleton, WorkloadCommand.mk.injEq, Command.submit.injEq] at hin
      rw [hin.2]
  · intro a ha
    rcases List.mem_append.mp ha with ha | ha
    · obtain ⟨hcreated, hnot⟩ := h.active a ha
      exact ⟨hcreated.append _, fun hc => hnot (hnotCancel _ hc)⟩
    · obtain rfl := List.mem_singleton.mp ha
      exact ⟨⟨order, by simp, rfl⟩, fun hc => hlive (hnotCancel _ hc)⟩
  · rw [List.map_append, List.map_singleton, List.nodup_append]
    refine ⟨h.distinct, List.nodup_singleton _, ?_⟩
    rintro id hid _ hsingle rfl
    obtain ⟨a, ha, rfl⟩ := List.mem_map.mp hid
    rw [List.mem_singleton] at hsingle
    exact hfresh _ (hsingle ▸ (h.active a ha).1)

theorem createCommand_inv
    (hpriced : ∀ draws ∈ orderDraws config random 1 g.draws g.activeOrders.length,
      Priced config random draws)
    (hsymbols : config.symbolCount ≠ 0) (h : Inv config g)
    (hroom : g.workload.length + 1 < 2 ^ 64) :
    ∃ g', createCommand config random g = some g' ∧ Inv config g' ∧
      g'.workload.length = g.workload.length + 1 := by
  unfold createCommand
  unfold orderDraws at hpriced
  split_ifs with hempty hcancel
  · rw [if_pos (by simpa using hempty)] at hpriced
    exact createOrder_inv (hpriced _ List.mem_cons_self) hsymbols h hroom
  · exact createCancel_inv (h.draw _) (by simpa using hempty) hroom
  · rw [if_neg (by simpa using hempty), if_neg hcancel] at hpriced
    exact createOrder_inv (hpriced _ List.mem_cons_self) hsymbols (h.draw _) hroom

/-- What a new order leaves behind, priced or not. -/
theorem createOrder_some {g' : Generator} (h : createOrder config random g = some g') :
    g'.draws = g.draws + 5 ∧ g'.activeOrders.length = g.activeOrders.length + 1 ∧
    ∃ symbolIndex order, g'.workload = g.workload ++ [⟨symbolIndex, .submit order⟩] ∧
      (validate order = none → Priced config random g.draws) := by
  simp only [createOrder, Option.bind_eq_bind, Option.bind_eq_some_iff, Option.some.injEq] at h
  obtain ⟨price, hprice, orderId, -, sequence, -, quantity, -, rfl⟩ := h
  refine ⟨rfl, by simp, _, _, rfl, fun hvalid => (priced_iff _).mpr ⟨price, hprice, ?_⟩⟩
  simpa using (validate_eq_none _).mp hvalid

theorem createCancel_some {g' : Generator} (h : createCancel random g = some g') :
    g'.draws = g.draws + 1 ∧ g'.activeOrders.length = g.activeOrders.length - 1 ∧
    ∃ item, g'.workload = g.workload ++ [item] := by
  simp only [createCancel, Option.bind_eq_bind, Option.bind_eq_some_iff, Option.some.injEq] at h
  obtain ⟨active, -, sequence, -, rfl⟩ := h
  exact ⟨rfl, length_swapRemove _ _, _, rfl⟩

/-- One pass appends a command. If it is an order that is priced, its draws are. The draws of the
next passes are those from where this one leaves off. -/
theorem createCommand_some {g' : Generator} (h : createCommand config random g = some g') :
    (∃ item, g'.workload = g.workload ++ [item] ∧
      ((∀ order, item.command = .submit order → validate order = none) →
        ∀ draws ∈ orderDraws config random 1 g.draws g.activeOrders.length,
          Priced config random draws)) ∧
    ∀ count, orderDraws config random (count + 1) g.draws g.activeOrders.length =
      orderDraws config random 1 g.draws g.activeOrders.length ++
        orderDraws config random count g'.draws g'.activeOrders.length := by
  unfold createCommand at h
  simp only [orderDraws]
  split_ifs at h with hempty hcancel
  · obtain ⟨hdraws, hactive, symbolIndex, order, hworkload, hpriced⟩ := createOrder_some h
    have hnone : g.activeOrders.length = 0 := by simpa using hempty
    rw [hdraws, hactive, hnone]
    refine ⟨⟨_, hworkload, fun hvalid draws hmem => ?_⟩, fun count => rfl⟩
    obtain rfl : draws = g.draws := by simpa using hmem
    exact hpriced (hvalid order rfl)
  · obtain ⟨hdraws, hactive, item, hworkload⟩ := createCancel_some h
    have hsome : g.activeOrders.length ≠ 0 := by simpa using hempty
    rw [hdraws, hactive]
    simp only [if_neg hsome, if_pos hcancel]
    exact ⟨⟨item, hworkload, fun _ draws hmem => absurd hmem List.not_mem_nil⟩, fun count => rfl⟩
  · obtain ⟨hdraws, hactive, symbolIndex, order, hworkload, hpriced⟩ := createOrder_some h
    have hsome : g.activeOrders.length ≠ 0 := by simpa using hempty
    rw [hdraws, hactive]
    simp only [if_neg hsome, if_neg hcancel]
    refine ⟨⟨_, hworkload, fun hvalid draws hmem => ?_⟩, fun count => rfl⟩
    obtain rfl : draws = g.draws + 1 := by simpa using hmem
    exact hpriced (hvalid order rfl)

/-- The draws of the first pass are among those of all. -/
theorem orderDraws_first (count draws active : Nat) :
    orderDraws config random 1 draws active ⊆ orderDraws config random (count + 1) draws active := by
  simp only [orderDraws]
  split_ifs
  · exact List.cons_subset_cons _ (List.nil_subset _)
  · exact List.nil_subset _
  · exact List.cons_subset_cons _ (List.nil_subset _)

/-- A run of the loop whose orders are priced gives its number of commands, and they all fit. -/
theorem createCommands_inv (hsymbols : config.symbolCount ≠ 0) {count : Nat}
    (hpriced : ∀ draws ∈ orderDraws config random count g.draws g.activeOrders.length,
      Priced config random draws)
    (h : Inv config g) (hroom : g.workload.length + count < 2 ^ 64) :
    ∃ g', createCommands config random count g = some g' ∧ Inv config g' ∧
      g'.workload.length = g.workload.length + count := by
  induction count generalizing g with
  | zero => exact ⟨g, rfl, h, rfl⟩
  | succ count ih =>
    obtain ⟨mid, hmid, hinv, hlen⟩ := createCommand_inv
      (fun draws hmem => hpriced draws (orderDraws_first count _ _ hmem)) hsymbols h (by omega)
    rw [(createCommand_some hmid).2] at hpriced
    obtain ⟨g', hrun, hinv', hlen'⟩ :=
      ih (fun draws hmem => hpriced draws (List.mem_append_right _ hmem)) hinv (by omega)
    refine ⟨g', ?_, hinv', by omega⟩
    rw [createCommands, hmid, Option.bind_some, hrun]

/-- The loop only appends. -/
theorem createCommands_extends {count : Nat} {g' : Generator}
    (h : createCommands config random count g = some g') :
    ∃ more, g'.workload = g.workload ++ more := by
  induction count generalizing g with
  | zero =>
    obtain rfl := Option.some.inj h
    exact ⟨[], (List.append_nil _).symm⟩
  | succ count ih =>
    obtain ⟨mid, hmid, hrest⟩ := Option.bind_eq_some_iff.mp h
    obtain ⟨⟨item, hitem, -⟩, -⟩ := createCommand_some hmid
    obtain ⟨more, hmore⟩ := ih hrest
    exact ⟨item :: more, by rw [hmore, hitem, List.append_assoc, List.singleton_append]⟩

/-- A run of the loop whose orders are valid has priced them. -/
theorem createCommands_priced {count : Nat} {g' : Generator}
    (h : createCommands config random count g = some g')
    (hvalid : ∀ item ∈ g'.workload, ∀ order, item.command = .submit order →
      validate order = none) :
    ∀ draws ∈ orderDraws config random count g.draws g.activeOrders.length,
      Priced config random draws := by
  induction count generalizing g with
  | zero => exact fun draws hmem => absurd hmem List.not_mem_nil
  | succ count ih =>
    obtain ⟨mid, hmid, hrest⟩ := Option.bind_eq_some_iff.mp h
    obtain ⟨⟨item, hitem, hfirst⟩, hsplit⟩ := createCommand_some hmid
    obtain ⟨more, hmore⟩ := createCommands_extends hrest
    rw [hsplit]
    intro draws hmem
    rcases List.mem_append.mp hmem with hmem | hmem
    · exact hfirst (hvalid item (by simp [hmore, hitem])) draws hmem
    · exact ih hrest draws hmem

/-- A stream gives a well-formed workload exactly when every level that it draws leaves a price and
the vectors can hold the commands. -/
theorem makeWorkload_priced_iff (hadmitted : config.admitted) (maxSize : UInt64)
    (random : Nat → UInt64) :
    (∃ workload, makeWorkload config random maxSize = some workload ∧
      WellFormed config workload) ↔
      AllPriced config random ∧ config.commandCount ≤ maxSize := by
  have hguard := hadmitted
  simp only [WorkloadConfig.admitted, Bool.not_eq_true', Bool.or_eq_false_iff,
    beq_eq_false_iff_ne, ne_eq] at hguard
  obtain ⟨⟨⟨⟨-, hsymbols⟩, -⟩, -⟩, -⟩ := hguard
  rw [makeWorkload, if_pos hadmitted]
  constructor
  · rintro ⟨workload, hworkload, hwell⟩
    split_ifs at hworkload with hsize
    obtain ⟨g, hrun, rfl⟩ := Option.map_eq_some_iff.mp hworkload
    refine ⟨createCommands_priced hrun fun item hitem order horder => ?_, hsize⟩
    obtain ⟨before, after, heq⟩ := List.append_of_mem hitem
    have hfits := (hwell.fits before item after heq).2
    rw [horder] at hfits
    exact hfits.2.2.1
  · rintro ⟨hpriced, hsize⟩
    obtain ⟨g, hrun, hinv, hlength⟩ := createCommands_inv (g := {}) hsymbols hpriced (inv_start config)
      (by simpa using config.commandCount.toNat_lt)
    refine ⟨g.workload, ?_, by simpa using hlength, hinv.fits⟩
    rw [if_pos hsize, hrun, Option.map_some]

/-- Up to a hundred thousand levels every order is priced. -/
theorem allPriced_of_levels (hadmitted : config.admitted) (hlevels : config.bookLevels ≤ 100000)
    (random : Nat → UInt64) : AllPriced config random := by
  intro draws _
  have hpos : 0 < config.bookLevels.toNat := by
    refine Nat.pos_of_ne_zero fun hzero => ?_
    have hlevels : config.bookLevels = 0 := UInt64.toNat_inj.mp hzero
    simp [WorkloadConfig.admitted, hlevels] at hadmitted
  have hlt : (random (draws + 3) % config.bookLevels).toNat < 100000 := by
    rw [UInt64.toNat_mod]
    exact lt_of_lt_of_le (Nat.mod_lt _ hpos) (UInt64.le_iff_toNat_le.mp hlevels)
  rw [Priced]
  split_ifs
  · exact .inl (by omega)
  · exact .inl hlt

/-- With at most a hundred thousand levels, and no more commands than the vectors can hold, every
stream of values gives a well-formed workload. -/
theorem makeWorkload_wellFormed {maxSize : UInt64} (hadmitted : config.admitted)
    (hlevels : config.bookLevels ≤ 100000) (hsize : config.commandCount ≤ maxSize)
    (random : Nat → UInt64) :
    ∃ workload, makeWorkload config random maxSize = some workload ∧
      WellFormed config workload :=
  (makeWorkload_priced_iff hadmitted maxSize random).mpr
    ⟨allPriced_of_levels hadmitted hlevels random, hsize⟩

theorem size_of_makeWorkload {maxSize : UInt64} {workload : List WorkloadCommand}
    (hadmitted : config.admitted) (h : makeWorkload config random maxSize = some workload) :
    config.commandCount ≤ maxSize := by
  by_contra hnot
  rw [makeWorkload, if_pos hadmitted, if_neg hnot] at h
  cases h

theorem wellFormed_of_makeWorkload {maxSize : UInt64} {workload : List WorkloadCommand}
    (hadmitted : config.admitted) (hlevels : config.bookLevels ≤ 100000)
    (h : makeWorkload config random maxSize = some workload) : WellFormed config workload := by
  have hsize := size_of_makeWorkload hadmitted h
  obtain ⟨workload', hworkload', hwell⟩ := makeWorkload_wellFormed hadmitted hlevels hsize random
  obtain rfl := Option.some.inj (h.symm.trans hworkload')
  exact hwell

/-! ## Too many levels -/

/-- A stream whose first order is priced a hundred thousand levels below the mid price. -/
def deepStream (config : WorkloadConfig) (i : Nat) : UInt64 :=
  if i = 1 then (if config.crossingRatePercent = 0 then 0 else 1)
  else if i = 3 then 100000
  else 0

/-- With more levels some stream draws one that leaves no price. -/
theorem not_priced_deep (hlevels : 100000 < config.bookLevels) :
    ¬ Priced config (deepStream config) 0 := by
  have hlevel : (deepStream config 3 % config.bookLevels).toNat = 100000 := by
    have hlt : 100000 < config.bookLevels.toNat := UInt64.lt_iff_toNat_lt.mp hlevels
    rw [UInt64.toNat_mod]
    exact Nat.mod_eq_of_lt hlt
  have htwo : deepStream config 2 % 100 = 0 := rfl
  rw [Priced, Nat.zero_add, Nat.zero_add, Nat.zero_add, hlevel, htwo]
  by_cases hrate : config.crossingRatePercent = 0
  · have hone : deepStream config 1 = 0 := if_pos hrate
    rw [hone, hrate]
    decide
  · have hone : deepStream config 1 = 1 := if_neg hrate
    have hcross : (0 : UInt64) < config.crossingRatePercent.toUInt64 := by
      have hpos : 0 < config.crossingRatePercent.toNat :=
        Nat.pos_of_ne_zero fun hzero => hrate (UInt32.toNat_inj.mp hzero)
      rw [UInt64.lt_iff_toNat_lt, UInt32.toNat_toUInt64]
      exact hpos
    rw [hone, decide_eq_true hcross]
    decide

/-- All streams price their orders exactly when the book has at most a hundred thousand levels. -/
theorem allPriced_iff (hadmitted : config.admitted) :
    (∀ random, AllPriced config random) ↔ config.bookLevels ≤ 100000 := by
  refine ⟨fun hall => ?_, allPriced_of_levels hadmitted⟩
  by_contra hnot
  obtain ⟨count, hcount⟩ : ∃ count, config.commandCount.toNat = count + 1 := by
    refine Nat.exists_eq_succ_of_ne_zero fun hzero => ?_
    have hcount : config.commandCount = 0 := UInt64.toNat_inj.mp hzero
    simp [WorkloadConfig.admitted, hcount] at hadmitted
  refine not_priced_deep (UInt64.not_le.mp hnot) (hall (deepStream config) 0 ?_)
  rw [hcount]
  exact List.mem_cons_self

/-- A stream gives a well-formed workload exactly when every level that it draws leaves a price and
the vectors can hold the commands. So all streams do exactly when, besides, the book has at most a
hundred thousand levels. None of this is part of the guard. -/
theorem makeWorkload_wellFormed_iff (config : WorkloadConfig) (maxSize : UInt64)
    (hadmitted : config.admitted) :
    (∀ random, (∃ workload, makeWorkload config random maxSize = some workload ∧
      WellFormed config workload) ↔
      AllPriced config random ∧ config.commandCount ≤ maxSize) ∧
    ((∀ random, ∃ workload, makeWorkload config random maxSize = some workload ∧
      WellFormed config workload) ↔
      config.bookLevels ≤ 100000 ∧ config.commandCount ≤ maxSize) := by
  have hpriced := makeWorkload_priced_iff hadmitted maxSize
  refine ⟨hpriced, fun hall => ?_, fun h => makeWorkload_wellFormed hadmitted h.1 h.2⟩
  have hboth := fun random => (hpriced random).mp (hall random)
  exact ⟨(allPriced_iff hadmitted).mp fun random => (hboth random).1, (hboth fun _ => 0).2⟩

theorem makeWorkload_wellFormed_default :
    (⟨100000, 1, 32, 20, 10⟩ : WorkloadConfig).admitted ∧
    ∀ random, ∃ workload,
      makeWorkload ⟨100000, 1, 32, 20, 10⟩ random 0x1FFFFFFFFFFFFFF = some workload ∧
      WellFormed ⟨100000, 1, 32, 20, 10⟩ workload :=
  ⟨by decide, (makeWorkload_wellFormed_iff ⟨100000, 1, 32, 20, 10⟩ 0x1FFFFFFFFFFFFFF
    (by decide)).2.mpr (by decide)⟩

/-- One level too many and the order has no price; far more and the price overflows. With too many
commands nothing is generated. -/
theorem makeWorkload_invalid_order :
    let order : NewOrder :=
      ⟨SequenceNumber.of 1, OrderId.of 1, .buy, .limit, Quantity.of 1, none⟩
    makeWorkload ⟨1, 1, 100001, 0, 0⟩ (fun _ => 100000) 0x1FFFFFFFFFFFFFF =
      some [⟨0, .submit order⟩] ∧
    validate order = some .limitOrderMissingPrice ∧
    ¬ WellFormed ⟨1, 1, 100001, 0, 0⟩ [⟨0, .submit order⟩] ∧
    makeWorkload ⟨1, 1, 0x8000000000000000, 0, 0⟩ (fun _ => 0x7FFFFFFFFFFFFFFF)
      0x1FFFFFFFFFFFFFF = none ∧
    makeWorkload ⟨0x8000000000000000, 1, 1, 0, 0⟩ (fun _ => 0) 0x1FFFFFFFFFFFFFF = none := by
  refine ⟨by decide +kernel, rfl, fun hwell => ?_, by decide +kernel, by decide +kernel⟩
  obtain ⟨-, -, -, hvalid, -⟩ := hwell.fits [] _ [] rfl
  cases hvalid

end LowLatencyExchange.Benchmark
