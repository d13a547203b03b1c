import LowLatencyExchange.Exchange.Terminal
import Mathlib.Tactic

/-!
# What a client knows of its orders

A client can keep the quantities of its resting orders from the messages it is sent alone: an
acceptance says what rests, an execution takes from the resting order it names, and an accepted
cancel ends the order. The messages of the engine are enough for this to be exact, for every
order that the client is reported the fills of.
-/
namespace LowLatencyExchange

open Protocol MatchingEngineService

abbrev Holdings := OrderId → Option Quantity

theorem Shadow.foldl_fill_congr (executions : List Execution) {s t : Shadow} {id : OrderId}
    (hsame : s id = t id) : executions.foldl fill s id = executions.foldl fill t id := by
  induction executions generalizing s t with
  | nil => exact hsame
  | cons exec executions ih =>
    refine ih ?_
    by_cases hid : id = exec.restingOrderId
    · subst hid
      rw [fill, fill, Function.update_self, Function.update_self, hsame]
    · rw [fill, fill, Function.update_of_ne hid, Function.update_of_ne hid, hsame]

namespace Holdings

def empty : Holdings := fun _ => none

/-- Take executed units off an order, which is gone when none is left. -/
def take (h : Holdings) (id : OrderId) (executed : Quantity) : Holdings :=
  Function.update h id ((h id).bind fun held => Quantity.fromUnits (held.units - executed.units))

/-- A remaining quantity of 0 means that nothing rests. -/
def receive (h : Holdings) : OutboundPayload → Holdings
  | .orderAccepted event =>
    Function.update h event.orderId (Quantity.fromUnits event.remainingQuantity.toNat)
  | .execution event => h.take event.restingOrderId event.quantity
  | .cancelAccepted event => Function.update h event.orderId none
  | .orderRejected _ => h
  | .protocolError _ => h
  | .monostate => h

def receiveAll (h : Holdings) (msgs : List OutboundMessage) : Holdings :=
  msgs.foldl (fun h msg => h.receive msg.payload) h

theorem receiveAll_append (h : Holdings) (xs ys : List OutboundMessage) :
    h.receiveAll (xs ++ ys) = (h.receiveAll xs).receiveAll ys := List.foldl_append

/-- The quantities in a set of resting orders. -/
def ofActive (s : Shadow) : Holdings := fun id => (s id).map ActiveOrder.remainingQuantity

def takeAll (h : Holdings) (executions : List Execution) : Holdings :=
  executions.foldl (fun h exec => h.take exec.restingOrderId exec.quantity) h

variable {h h' : Holdings} {id : OrderId}

theorem take_other {other : OrderId} (hne : id ≠ other) (executed : Quantity) :
    h.take other executed id = h id := Function.update_of_ne hne _ _

theorem take_self (executed : Quantity) :
    h.take id executed id =
      (h id).bind fun held => Quantity.fromUnits (held.units - executed.units) :=
  Function.update_self _ _ _

/-- Executions against other orders do not count. -/
theorem takeAll_filter (p : Execution → Bool) (executions : List Execution) (hsame : h id = h' id)
    (hp : ∀ exec ∈ executions, exec.restingOrderId = id → p exec = true) :
    h.takeAll (executions.filter p) id = h'.takeAll executions id := by
  induction executions generalizing h h' with
  | nil => exact hsame
  | cons exec executions ih =>
    obtain ⟨hexec, hrest⟩ := List.forall_mem_cons.mp hp
    have hnext : h.take exec.restingOrderId exec.quantity id =
        h'.take exec.restingOrderId exec.quantity id := by
      by_cases hid : id = exec.restingOrderId
      · subst hid
        rw [take_self, take_self, hsame]
      · rw [take_other hid, take_other hid, hsame]
    cases hkept : p exec with
    | true =>
      rw [List.filter_cons_of_pos hkept]
      exact ih hnext hrest
    | false =>
      have hother : id ≠ exec.restingOrderId := fun hid =>
        Bool.false_ne_true (hkept.symm.trans (hexec hid.symm))
      rw [List.filter_cons_of_neg (by simp [hkept])]
      exact ih (hsame.trans (take_other hother _).symm) hrest

theorem takeAll_congr (executions : List Execution) (hsame : h id = h' id) :
    h.takeAll executions id = h'.takeAll executions id := by
  have hall := takeAll_filter (fun _ => true) executions hsame fun _ _ _ => rfl
  rwa [List.filter_true] at hall

theorem ofActive_fill (s : Shadow) (exec : Execution) :
    ofActive (s.fill exec) = (ofActive s).take exec.restingOrderId exec.quantity := by
  funext id
  by_cases hid : id = exec.restingOrderId
  · subst hid
    rw [take_self, ofActive, ofActive, Shadow.fill, Function.update_self]
    cases s exec.restingOrderId with
    | none => rfl
    | some active => exact (Option.map_map ..).trans Option.map_id'
  · rw [take_other hid, ofActive, ofActive, Shadow.fill, Function.update_of_ne hid]

theorem ofActive_foldl_fill (s : Shadow) (executions : List Execution) :
    ofActive (executions.foldl Shadow.fill s) = (ofActive s).takeAll executions := by
  induction executions generalizing s with
  | nil => rfl
  | cons exec executions ih =>
    rw [List.foldl_cons, ih, ofActive_fill]
    rfl

/-- The executions of a group or the fills between groups. -/
theorem receiveAll_executions (h : Holdings) (executions : List Execution)
    {report : Execution → OutboundMessage} (sequence : SequenceNumber)
    (hreport : ∀ exec, (report exec).payload = .execution (executionEvent sequence exec)) :
    h.receiveAll (executions.map report) = h.takeAll executions := by
  induction executions generalizing h with
  | nil => rfl
  | cons exec executions ih =>
    have hone : h.receive (report exec).payload = h.take exec.restingOrderId exec.quantity := by
      rw [hreport]
      rfl
    rw [List.map_cons, receiveAll, List.foldl_cons, hone]
    exact ih _

end Holdings

/-! ## One command -/

/-- What the book holds, by id. -/
def OrderBook.holdings (b : OrderBook) : Holdings := Holdings.ofActive b.active

theorem OrderBook.Inv.active_step {b : OrderBook} (inv : b.Inv) (c : Command) :
    (b.step c).1.active = Shadow.track b.active (c, (b.step c).2) := by
  obtain ⟨hinv, hview, hresult⟩ := step_spec inv c
  have htracks := inv.valid.tracks.step inv.valid c
  rw [inv.active_eq, hresult]
  funext id
  rw [hinv.active_eq, hview, htracks.find_eq (hview ▸ hinv.valid) id]
  rfl

/-- An accepted replace names an order that rests. -/
theorem OrderBook.Inv.replaced_rests {b : OrderBook} (inv : b.Inv) {command : ReplaceOrder}
    (haccepted : (b.step (.replace command)).2.accepted = true) :
    (b.active command.orderId).isSome := by
  rw [(step_spec inv _).2.2, b.view.step_accepted_iff] at haccepted
  rw [inv.active_eq, PriorityBook.active, Option.isSome_map]
  exact Option.isSome_iff_ne_none.mpr haccepted

/-- Orders other than the command's own change by its executions alone. -/
theorem OrderBook.Inv.holdings_other {b : OrderBook} (inv : b.Inv) {c : Command} {id : OrderId}
    (hown : id ≠ c.orderId) :
    (b.step c).1.holdings id = b.holdings.takeAll (b.step c).2.executions id := by
  cases haccepted : (b.step c).2.accepted with
  | false =>
    obtain ⟨hnone, hsame⟩ := (inv.step_effect c).rejected haccepted
    rw [holdings, hsame, hnone]
    rfl
  | true =>
    rw [holdings, holdings, inv.active_step, ← Holdings.ofActive_foldl_fill]
    refine congrArg (Option.map ActiveOrder.remainingQuantity) ?_
    cases c with
    | submit order =>
      have hnone : (b.submit order).2.rejection.isNone := haccepted
      simp only [Shadow.track, step, hnone, if_true, Result.executions]
      cases order.limitPrice with
      | none => rfl
      | some price =>
        cases (b.submit order).2.remainingQuantity with
        | none => rfl
        | some quantity => exact Function.update_of_ne hown _ _
    | cancel command =>
      have hnone : (b.cancel command).2.rejection.isNone := haccepted
      simp only [Shadow.track, step, hnone, if_true, Result.executions]
      exact Function.update_of_ne hown _ _
    | replace command =>
      have hnone : (b.replace command).2.rejection.isNone := haccepted
      obtain ⟨target, htarget⟩ := Option.isSome_iff_exists.mp (inv.replaced_rests haccepted)
      simp only [Shadow.track, step, hnone, if_true, Result.executions, htarget]
      have hfill := Shadow.foldl_fill_congr (b.replace command).2.executions
        (Function.update_of_ne hown none b.active)
      cases (b.replace command).2.remainingQuantity with
      | none => exact hfill
      | some quantity => exact (Function.update_of_ne hown _ _).trans hfill

namespace Served

variable (x : Served)

theorem before_inv : x.before.Inv := OrderBook.run_inv _

/-- What an acceptance says rests. -/
theorem fromUnits_restingUnits (book : OrderBook) (id : OrderId) :
    Quantity.fromUnits (restingUnits book id).toNat = book.holdings id := by
  rw [restingUnits, OrderBook.holdings, Holdings.ofActive]
  cases book.active id with
  | none => rfl
  | some active =>
    have hlt := active.remainingQuantity.lt
    rw [Option.elim_some, UInt64.toNat_ofNat_of_lt' hlt, Quantity.fromUnits_units, Option.map_some]

/-- The message that ends a group, for a client that has taken its executions. -/
theorem receive_terminal {h : Holdings} {id : OrderId}
    (hother : id ≠ x.message.command.orderId → h id = x.after.holdings id)
    (hrejected : x.result.accepted = false → h id = x.after.holdings id) :
    h.receive x.terminal.payload id = x.after.holdings id := by
  have hanswer := x.terminal_answer
  have hends : x.result.accepted = true →
      x.result.Reports (x.before.active x.message.command.orderId)
        (x.after.active x.message.command.orderId) := x.effect.accepted
  have hown : ∀ quantity, x.after.holdings x.message.command.orderId = quantity →
      Function.update h x.message.command.orderId quantity id = x.after.holdings id := by
    rintro _ rfl
    by_cases hid : id = x.message.command.orderId
    · rw [hid, Function.update_self]
    · rw [Function.update_of_ne hid, hother hid]
  have hrests := fromUnits_restingUnits x.after
  obtain ⟨earlier, sessionId, command, wireBytes⟩ := x
  cases command with
  | submit order =>
    simp only [Answer] at hanswer
    split_ifs at hanswer with haccepted
    · rw [hanswer.2]
      exact hown _ (hrests order.orderId).symm
    · obtain ⟨-, code, hpayload⟩ := hanswer
      rw [hpayload]
      exact hrejected (Bool.eq_false_iff.mpr haccepted)
  | cancel order =>
    simp only [Answer] at hanswer
    split_ifs at hanswer with haccepted
    · obtain ⟨-, active, -, hpayload⟩ := hanswer
      have hgone : OrderBook.active _ order.orderId = none := (hends haccepted).1
      rw [hpayload]
      refine hown none ?_
      rw [OrderBook.holdings, Holdings.ofActive]
      exact congrArg _ hgone
    · obtain ⟨-, code, hpayload⟩ := hanswer
      rw [hpayload]
      exact hrejected (Bool.eq_false_iff.mpr haccepted)
  | replace order =>
    simp only [Answer] at hanswer
    split_ifs at hanswer with haccepted
    · rw [hanswer.2]
      exact hown _ (hrests order.orderId).symm
    · obtain ⟨-, code, hpayload⟩ := hanswer
      rw [hpayload]
      exact hrejected (Bool.eq_false_iff.mpr haccepted)

theorem receiveAll_group (h : Holdings) :
    h.receiveAll x.group = (h.takeAll x.result.executions).receive x.terminal.payload := by
  rw [group, Holdings.receiveAll_append,
    h.receiveAll_executions _ x.message.command.sequence fun _ => rfl]
  rfl

theorem holdings_rejected (hrejected : x.result.accepted = false) :
    x.result.executions = [] ∧ x.after.holdings = x.before.holdings := by
  obtain ⟨hnone, hsame⟩ := x.effect.rejected hrejected
  exact ⟨hnone, congrArg Holdings.ofActive hsame⟩

/-- A client follows an order through one command if it hears of what becomes of the order: the
command is its own, or names another order and the fills of this one are reported to it. -/
theorem receive_repliesTo {sessionId : UInt64} {h : Holdings} {id : OrderId}
    (hheld : h id = x.before.holdings id)
    (hown : x.result.accepted = true → x.message.command.orderId = id →
      x.message.sessionId = sessionId)
    (hfills : x.message.sessionId ≠ sessionId → ∀ exec ∈ x.result.executions,
      exec.restingOrderId = id → holder x.earlier id = some sessionId) :
    h.receiveAll (repliesTo sessionId x) id = x.after.holdings id := by
  have hother : id ≠ x.message.command.orderId →
      x.before.holdings.takeAll x.result.executions id = x.after.holdings id :=
    fun hne => (x.before_inv.holdings_other hne).symm
  unfold repliesTo
  split_ifs with hmine
  · rw [receiveAll_group]
    apply receive_terminal
    · intro hne
      rw [Holdings.takeAll_congr _ hheld, hother hne]
    · intro hrejected
      obtain ⟨hnone, hsame⟩ := x.holdings_rejected hrejected
      rw [hnone, hsame]
      exact hheld
  · rw [fills, Holdings.receiveAll_executions _ _ x.message.command.sequence fun _ => rfl,
      Holdings.takeAll_filter _ _ hheld fun exec hexec hid =>
        decide_eq_true (hid ▸ hfills hmine exec hexec hid)]
    by_cases hid : id = x.message.command.orderId
    · have hrejected : x.result.accepted = false :=
        Bool.eq_false_iff.mpr fun haccepted => hmine (hown haccepted hid.symm)
      obtain ⟨hnone, hsame⟩ := x.holdings_rejected hrejected
      rw [hnone, hsame]
      rfl
    · exact hother hid

/-- An accepted command says all about its own order. -/
theorem receive_own {h : Holdings} (haccepted : x.result.accepted = true) :
    h.receiveAll (repliesTo x.message.sessionId x) x.message.command.orderId =
      x.after.holdings x.message.command.orderId := by
  rw [repliesTo, if_pos rfl, receiveAll_group]
  apply receive_terminal
  · exact fun hne => absurd rfl hne
  · intro hrejected
    rw [haccepted] at hrejected
    cases hrejected

end Served

/-! ## Whole runs -/

/-- What a session can know after the messages were processed and it got all of its own. -/
def knownHoldings (sessionId : UInt64) (processed : List InboundMessage) : Holdings :=
  Holdings.empty.receiveAll ((served processed).flatMap (repliesTo sessionId))

/-- No other session had a command for the order accepted. -/
def SoleUser (sessionId : UInt64) (id : OrderId) (processed : List InboundMessage) : Prop :=
  ∀ x ∈ commandResults processed, x.2.accepted = true → x.1.command.orderId = id →
    x.1.sessionId = sessionId

/-- A session knows the orders that rest in its name, and the orders that no other session
touched. -/
structure KnowsInv (s : MatchingEngineService) (processed : List InboundMessage) : Prop where
  sessions : SessionsInv s processed
  resting : ∀ sessionId id, s.book.contains id = true → holder processed id = some sessionId →
    knownHoldings sessionId processed id = s.book.holdings id
  sole : ∀ sessionId id, SoleUser sessionId id processed →
    knownHoldings sessionId processed id = s.book.holdings id

theorem knownHoldings_concat (sessionId : UInt64) (processed : List InboundMessage)
    (message : InboundMessage) :
    knownHoldings sessionId (processed ++ [message]) =
      (knownHoldings sessionId processed).receiveAll (repliesTo sessionId ⟨processed, message⟩) := by
  rw [knownHoldings, served_concat, List.flatMap_append, List.flatMap_singleton,
    Holdings.receiveAll_append]
  rfl

theorem orderId_of_placedId {c : Command} {id : OrderId} (h : c.placedId = some id) :
    c.orderId = id := by
  cases c with
  | submit order => exact Option.some.inj h
  | cancel command => cases h
  | replace command => exact Option.some.inj h

/-- An accepted command that places no order ends its own. -/
theorem Served.ends_of_not_placed (x : Served) (haccepted : x.result.accepted = true)
    (hplaced : x.message.command.placedId ≠ some x.message.command.orderId) :
    x.after.active x.message.command.orderId = none := by
  have hends := x.effect.accepted haccepted
  obtain ⟨earlier, sessionId, command, wireBytes⟩ := x
  cases command with
  | submit order => exact absurd rfl hplaced
  | cancel order => exact hends.1
  | replace order => exact absurd rfl hplaced

/-- A client follows the orders that rest in its name. -/
theorem Served.receive_resting (x : Served) {sessionId : UInt64} {id : OrderId} {h : Holdings}
    (hrests : x.after.contains id = true)
    (hholder : holder (x.earlier ++ [x.message]) id = some sessionId)
    (hknown : x.before.contains id = true → holder x.earlier id = some sessionId →
      h id = x.before.holdings id) :
    h.receiveAll (repliesTo sessionId x) id = x.after.holdings id := by
  have hplaces : places id (x.message, x.result) =
      (x.result.accepted && x.message.command.placedId = some id) := rfl
  have hconcat : holder (x.earlier ++ [x.message]) id =
      if places id (x.message, x.result) then some x.message.sessionId else holder x.earlier id :=
    holder_concat x.earlier x.message id
  rw [hconcat, hplaces] at hholder
  split_ifs at hholder with hplaced
  · obtain rfl := Option.some.inj hholder
    obtain ⟨haccepted, hplaced⟩ := Bool.and_eq_true_iff.mp hplaced
    obtain rfl := orderId_of_placedId (of_decide_eq_true hplaced)
    exact x.receive_own haccepted
  · rw [Bool.and_eq_true_iff, decide_eq_true_iff] at hplaced
    apply x.receive_repliesTo
    · exact hknown (contains_of_not_placed x.before_inv hrests hplaced) hholder
    · rintro haccepted rfl
      have hends := x.ends_of_not_placed haccepted fun hid => hplaced ⟨haccepted, hid⟩
      have hnone := (OrderBook.step_spec x.before_inv x.message.command).1.contains_eq
        x.message.command.orderId
      exact absurd (hrests.symm.trans (hnone.trans (congrArg Option.isSome hends))) (by simp)
    · rintro - exec - rfl
      exact hholder

theorem SoleUser.earlier {sessionId : UInt64} {id : OrderId} {processed : List InboundMessage}
    {message : InboundMessage} (h : SoleUser sessionId id (processed ++ [message])) :
    SoleUser sessionId id processed ∧
      (((Served.mk processed message).result.accepted = true →
        message.command.orderId = id → message.sessionId = sessionId)) := by
  rw [SoleUser, commandResults_concat] at h
  constructor
  · exact fun x hx => h x (List.mem_append_left _ hx)
  · exact h _ (List.mem_append_right _ (List.mem_singleton_self _))

theorem SoleUser.holder_eq {sessionId other : UInt64} {id : OrderId}
    {processed : List InboundMessage} (h : SoleUser sessionId id processed)
    (hholder : holder processed id = some other) : other = sessionId := by
  obtain ⟨x, hx, rfl⟩ := Option.map_eq_some_iff.mp hholder
  obtain ⟨hmem, hplaces⟩ := List.mem_filter.mp (List.mem_of_getLast? hx)
  obtain ⟨haccepted, hplaced⟩ : x.2.accepted = true ∧ x.1.command.placedId = some id := by
    simpa [places] using hplaces
  exact h x hmem haccepted (orderId_of_placedId hplaced)

theorem KnowsInv.handle {s : MatchingEngineService} {processed : List InboundMessage}
    (h : KnowsInv s processed) (message : InboundMessage) :
    KnowsInv (s.handleCommand message.sessionId message.command).1 (processed ++ [message]) := by
  have hbefore : s.book = (Served.mk processed message).before := h.sessions.book
  have hafter : (s.handleCommand message.sessionId message.command).1.book =
      (Served.mk processed message).after := by
    rw [(handleCommand_processed h.sessions.inv message).book, hbefore]
    rfl
  have hheld : ∀ exec ∈ (Served.mk processed message).result.executions,
      (holder processed exec.restingOrderId).isSome := by
    intro exec hexec
    have hresting := ((Served.mk processed message).effect.resting exec.restingOrderId
      (List.mem_map_of_mem hexec)).2
    rw [← hbefore, ← h.sessions.inv.contains_eq] at hresting
    exact h.sessions.held _ hresting
  refine ⟨h.sessions.handle message, ?_, ?_⟩
  · intro sessionId id hrests hholder
    rw [hafter] at hrests
    rw [knownHoldings_concat, hafter]
    exact (Served.mk processed message).receive_resting hrests hholder
      (hbefore ▸ h.resting sessionId id)
  · intro sessionId id hsole
    obtain ⟨hearlier, hown⟩ := hsole.earlier
    rw [knownHoldings_concat, hafter]
    refine (Served.mk processed message).receive_repliesTo ?_ hown ?_
    · rw [← hbefore]
      exact h.sole sessionId id hearlier
    · rintro - exec hexec rfl
      obtain ⟨other, hother⟩ := Option.isSome_iff_exists.mp (hheld exec hexec)
      rw [hother, hearlier.holder_eq hother]

theorem knowsInv_rule : EngineRun.CallRule KnowsInv where
  start marketDataFeed eventCaptureFeed :=
    { sessions := sessionsInv_rule.start marketDataFeed eventCaptureFeed
      resting := fun _ _ h => by cases h
      sole := fun _ _ _ => rfl }
  inbound h inbound := ⟨sessionsInv_rule.inbound h.sessions inbound, h.resting, h.sole⟩
  occupancy h := ⟨sessionsInv_rule.occupancy h.sessions, h.resting, h.sole⟩
  handle h message := h.handle message
  finish h message accepted := ⟨sessionsInv_rule.finish h.sessions message accepted, h.resting, h.sole⟩

end LowLatencyExchange
