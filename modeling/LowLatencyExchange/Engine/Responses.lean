import LowLatencyExchange.Engine.Run
import LowLatencyExchange.OrderBook.Effects
import Mathlib.Tactic

/-!
# What the engine answers

One command is answered by a message for each of its executions, one more for each resting
order of another session, and a terminal message. Here the handlers are shown to push exactly
these, to count their bytes, and to update the session map once per command.
-/
namespace LowLatencyExchange

open Protocol

abbrev OrderSessions := Finmap (fun _ : OrderId => UInt64)

/-- The bytes of the frame of a message. -/
def OutboundMessage.frameSize (msg : OutboundMessage) : Nat := kHeaderSize + msg.type.payloadSize

namespace MatchingEngineService

/-- Push messages in a row. -/
def answer (s : MatchingEngineService) (msgs : List OutboundMessage) : MatchingEngineService :=
  { s with
    outbound := s.outbound ++ msgs
    metrics :=
      { s.metrics with
        outboundBytes := s.metrics.outboundBytes +
          UInt64.ofNat (msgs.map OutboundMessage.frameSize).sum } }

theorem pushOutbound_eq (s : MatchingEngineService) (msg : OutboundMessage) :
    s.pushOutbound msg = s.answer [msg] := by
  obtain ⟨size, hexpected, hsize⟩ := expectedPayloadLength_value msg.type
  simp [pushOutbound, answer, recordOutboundMessage, OutboundMessage.frameSize, hexpected, hsize]

@[simp] theorem answer_answer (s : MatchingEngineService) (xs ys : List OutboundMessage) :
    (s.answer xs).answer ys = s.answer (xs ++ ys) := by
  simp [answer, UInt64.ofNat_add, UInt64.add_assoc]

/-! ## Executions -/

def executionEvent (sequence : SequenceNumber) (exec : Execution) : ExecutionEvent :=
  ⟨sequence, exec.restingOrderId, exec.incomingOrderId, exec.price, exec.quantity⟩

/-- For the session whose command was executed. -/
def ownReport (sessionId : UInt64) (sequence : SequenceNumber) (exec : Execution) :
    OutboundMessage :=
  ⟨sessionId, .execution, kFlagMore, .execution (executionEvent sequence exec)⟩

/-- For the session of the resting order. -/
def fillReport (sequence : SequenceNumber) (exec : Execution) (sessionId : UInt64) :
    OutboundMessage :=
  ⟨sessionId, .execution, 0, .execution (executionEvent sequence exec)⟩

def executionReports (sessionId : UInt64) (sequence : SequenceNumber)
    (sessions : OrderId → Option UInt64) (exec : Execution) : List OutboundMessage :=
  let restingSessionId := (sessions exec.restingOrderId).getD 0
  ownReport sessionId sequence exec ::
    if restingSessionId ≠ 0 ∧ restingSessionId ≠ sessionId then
      [fillReport sequence exec restingSessionId]
    else []

/-- Drop the sessions of the resting orders that are gone from the book. -/
def forgetFilled (book : OrderBook) (sessions : OrderSessions) (executions : List Execution) :
    OrderSessions :=
  executions.foldl (fun sessions exec =>
    if book.contains exec.restingOrderId then sessions
    else sessions.erase exec.restingOrderId) sessions

theorem lookup_forgetFilled (book : OrderBook) (sessions : OrderSessions)
    (executions : List Execution) (id : OrderId) :
    (forgetFilled book sessions executions).lookup id =
      if id ∈ executions.map Execution.restingOrderId ∧ book.contains id = false then none
      else sessions.lookup id := by
  induction executions generalizing sessions with
  | nil => simp [forgetFilled]
  | cons exec executions ih =>
    rw [forgetFilled, List.foldl_cons, ← forgetFilled, ih]
    by_cases hid : id = exec.restingOrderId
    · subst hid
      by_cases hc : book.contains exec.restingOrderId <;> simp [hc]
    · by_cases hc : book.contains exec.restingOrderId <;>
        simp [hc, hid, Finmap.lookup_erase_ne hid]

theorem reportExecution_eq (sessionId : UInt64) (sequence : SequenceNumber)
    (s : MatchingEngineService) (exec : Execution) :
    reportExecution sessionId sequence s exec =
      { s with
        metrics := countExecution s.metrics
        orderSessions := forgetFilled s.book s.orderSessions [exec] }.answer
        (executionReports sessionId sequence s.orderSessions.lookup exec) := by
  simp only [reportExecution, executionReports, pushOutbound_eq, forgetFilled, List.foldl_cons,
    List.foldl_nil]
  split_ifs
  · rw [answer_answer]
    rfl
  · rw [answer_answer]
    rfl
  · rfl
  · rfl

/-- The loop over the executions of a command, which name each resting order once. -/
theorem reportExecutions_eq (sessionId : UInt64) (sequence : SequenceNumber)
    (s : MatchingEngineService) {executions : List Execution}
    (h : (executions.map Execution.restingOrderId).Nodup) :
    s.reportExecutions sessionId sequence executions =
      { s with
        metrics :=
          { s.metrics with
            executions := s.metrics.executions + UInt64.ofNat executions.length }
        orderSessions := forgetFilled s.book s.orderSessions executions }.answer
        (executions.flatMap (executionReports sessionId sequence s.orderSessions.lookup)) := by
  induction executions generalizing s with
  | nil => simp [reportExecutions, forgetFilled, answer]
  | cons exec executions ih =>
    obtain ⟨hnot, hrest⟩ := List.nodup_cons.mp h
    -- The reports of the later executions read entries that this one leaves alone.
    have hsame : ∀ x ∈ executions,
        executionReports sessionId sequence
            (forgetFilled s.book s.orderSessions [exec]).lookup x =
          executionReports sessionId sequence s.orderSessions.lookup x := by
      intro x hx
      have hne : x.restingOrderId ≠ exec.restingOrderId :=
        fun he => hnot (he ▸ List.mem_map_of_mem hx)
      simp [executionReports, lookup_forgetFilled, hne]
    rw [reportExecutions, List.foldl_cons, ← reportExecutions, reportExecution_eq, ih _ hrest]
    simp only [answer, List.flatMap_cons]
    rw [List.flatMap_congr hsame]
    simp [forgetFilled, countExecution, UInt64.ofNat_add, UInt64.add_assoc, UInt64.add_comm 1]

/-! ## Commands -/

/-- The last message to the session of a command. -/
def terminal (sessionId : UInt64) (book : OrderBook) : Command → OutboundMessage
  | .submit order =>
    let result := (book.submit order).2
    match result.rejection with
    | some reason => ⟨sessionId, .orderRejected, 0,
        .orderRejected ⟨order.sequence, order.orderId, toErrorCode reason⟩⟩
    | none => ⟨sessionId, .orderAccepted, 0,
        .orderAccepted ⟨order.sequence, order.orderId, remainingUnits result.remainingQuantity⟩⟩
  | .cancel order =>
    let result := (book.cancel order).2
    match result.rejection with
    | some reason => ⟨sessionId, .cancelRejected, 0,
        .orderRejected ⟨order.sequence, order.orderId, cancelErrorCode reason⟩⟩
    | none => ⟨sessionId, .cancelAccepted, 0, result.cancelledQuantity.elim .monostate fun quantity =>
        .cancelAccepted ⟨order.sequence, order.orderId, quantity⟩⟩
  | .replace order =>
    let result := (book.replace order).2
    match result.rejection with
    | some reason => ⟨sessionId, .replaceRejected, 0,
        .orderRejected ⟨order.sequence, order.orderId, replaceErrorCode reason⟩⟩
    | none => ⟨sessionId, .replaceAccepted, 0,
        .orderAccepted ⟨order.sequence, order.orderId, remainingUnits result.remainingQuantity⟩⟩

/-- Everything pushed for a command. -/
def responses (sessionId : UInt64) (book : OrderBook) (sessions : OrderId → Option UInt64)
    (c : Command) : List OutboundMessage :=
  (book.step c).2.executions.flatMap (executionReports sessionId c.sequence sessions) ++
    [terminal sessionId book c]

/-- The session map after a command. -/
def nextSessions (sessionId : UInt64) (book : OrderBook) (sessions : OrderSessions) (c : Command) :
    OrderSessions :=
  let (after, result) := book.step c
  let filled := forgetFilled after sessions result.executions
  if result.accepted then
    match c with
    | .submit order =>
      if after.contains order.orderId then filled.insert order.orderId sessionId else filled
    | .cancel order => filled.erase order.orderId
    | .replace order =>
      if after.contains order.orderId then filled.insert order.orderId sessionId
      else filled.erase order.orderId
  else sessions

theorem remainingUnits_pos (remainingQuantity : Option Quantity) :
    0 < remainingUnits remainingQuantity ↔ remainingQuantity.isSome := by
  cases remainingQuantity with
  | none => simp [remainingUnits]
  | some quantity =>
    have := quantity.pos
    have := quantity.lt
    rw [UInt64.lt_iff_toNat_lt, remainingUnits, Option.elim_some, UInt64.toNat_ofNat']
    simp
    omega

/-- An order with a quantity left is in the book. -/
theorem remainingUnits_pos_iff_contains {book : OrderBook} (inv : book.Inv) {id : OrderId}
    {remainingQuantity : Option Quantity}
    (h : remainingQuantity = (book.active id).map ActiveOrder.remainingQuantity) :
    0 < remainingUnits remainingQuantity ↔ book.contains id = true := by
  rw [remainingUnits_pos, h, Option.isSome_map, inv.contains_eq]

/-- A handler's state, with one update of the session map and all messages at once. -/
def Handled (s s' : MatchingEngineService) (sessionId : UInt64) (c : Command) : Prop :=
  s' =
    { s with
      book := (s.book.step c).1
      metrics :=
        { s.metrics with
          executions := s.metrics.executions + UInt64.ofNat (s.book.step c).2.executions.length }
      orderSessions := nextSessions sessionId s.book s.orderSessions c }.answer
      (responses sessionId s.book s.orderSessions.lookup c)

section Handlers

variable {s : MatchingEngineService} (inv : s.book.Inv) (sessionId : UInt64)
include inv

theorem handleNewOrder_handled (order : NewOrder) :
    Handled s (s.handleNewOrder sessionId order).1 sessionId (.submit order) := by
  have heffect := inv.step_effect (.submit order)
  have hafter := (OrderBook.step_spec inv (.submit order)).1
  rcases hout : s.book.submit order with ⟨after, executions, rejection, remainingQuantity⟩
  simp only [OrderBook.step, hout] at heffect hafter
  simp only [Handled, handleNewOrder, responses, terminal, nextSessions, OrderBook.step,
    Result.accepted, Result.executions, Command.sequence, hout]
  cases rejection with
  | some reason =>
    obtain rfl : executions = [] := (heffect.rejected rfl).1
    simp [pushOutbound_eq, answer]
  | none =>
    have hremaining : remainingQuantity = _ := (heffect.accepted rfl).2
    have hrests : 0 < remainingUnits remainingQuantity ↔ after.contains order.orderId = true :=
      remainingUnits_pos_iff_contains hafter hremaining
    have hdistinct : (executions.map Execution.restingOrderId).Nodup := heffect.distinct
    simp only [reportExecutions_eq _ _ _ hdistinct, pushOutbound_eq, answer_answer, hrests]
    by_cases hc : after.contains order.orderId = true
    · simp [hc, answer]
    · simp [hc, answer]

theorem handleCancelOrder_handled (order : CancelOrder) :
    Handled s (s.handleCancelOrder sessionId order).1 sessionId (.cancel order) := by
  have heffect := inv.step_effect (.cancel order)
  rcases hout : s.book.cancel order with ⟨after, orderId, cancelledQuantity, rejection⟩
  simp only [OrderBook.step, hout] at heffect
  simp only [Handled, handleCancelOrder, responses, terminal, nextSessions, OrderBook.step,
    Result.accepted, Result.executions, Command.sequence, hout]
  cases rejection with
  | some reason => simp [pushOutbound_eq, answer]
  | none =>
    obtain ⟨-, hsome, hreported⟩ := heffect.accepted rfl
    obtain ⟨active, hactive⟩ := Option.isSome_iff_exists.mp hsome
    rw [hactive, Option.map_some] at hreported
    obtain rfl : cancelledQuantity = _ := hreported
    simp [pushOutbound_eq, answer, forgetFilled]

theorem handleReplaceOrder_handled (order : ReplaceOrder) :
    Handled s (s.handleReplaceOrder sessionId order).1 sessionId (.replace order) := by
  have heffect := inv.step_effect (.replace order)
  have hafter := (OrderBook.step_spec inv (.replace order)).1
  rcases hout : s.book.replace order with ⟨after, orderId, executions, remainingQuantity, rejection⟩
  simp only [OrderBook.step, hout] at heffect hafter
  simp only [Handled, handleReplaceOrder, responses, terminal, nextSessions, OrderBook.step,
    Result.accepted, Result.executions, Command.sequence, hout]
  cases rejection with
  | some reason =>
    obtain rfl : executions = [] := (heffect.rejected rfl).1
    simp [pushOutbound_eq, answer]
  | none =>
    have hremaining : remainingQuantity = _ := heffect.accepted rfl
    have hrests : 0 < remainingUnits remainingQuantity ↔ after.contains order.orderId = true :=
      remainingUnits_pos_iff_contains hafter hremaining
    have hdistinct : (executions.map Execution.restingOrderId).Nodup := heffect.distinct
    simp only [reportExecutions_eq _ _ _ hdistinct, pushOutbound_eq, hrests]
    by_cases hc : after.contains order.orderId = true
    · simp [hc, answer, UInt64.ofNat_add, UInt64.add_assoc]
    · simp [hc, answer, UInt64.ofNat_add, UInt64.add_assoc]

theorem handleCommand_handled (c : Command) :
    Handled s (s.handleCommand sessionId c).1 sessionId c := by
  cases c with
  | submit order => exact handleNewOrder_handled inv sessionId order
  | cancel order => exact handleCancelOrder_handled inv sessionId order
  | replace order => exact handleReplaceOrder_handled inv sessionId order

end Handlers

/-- What the handler of a message does to the book, the session map and the outbound queue. -/
structure Processed (s s' : MatchingEngineService) (message : InboundMessage) : Prop where
  book : s'.book = (s.book.step message.command).1
  orderSessions : s'.orderSessions =
    nextSessions message.sessionId s.book s.orderSessions message.command
  outbound : s'.outbound = s.outbound ++
    responses message.sessionId s.book s.orderSessions.lookup message.command
  outboundBytes : s'.metrics.outboundBytes = s.metrics.outboundBytes +
    UInt64.ofNat ((responses message.sessionId s.book s.orderSessions.lookup
      message.command).map OutboundMessage.frameSize).sum

theorem recordCommandResult_outboundBytes (metrics : MatchingEngineMetrics)
    (message : InboundMessage) (accepted : Bool) :
    (recordCommandResult metrics message accepted).outboundBytes = metrics.outboundBytes := by
  unfold recordCommandResult
  dsimp only
  split_ifs <;> rfl

theorem handleCommand_processed {s : MatchingEngineService} (inv : s.book.Inv)
    (message : InboundMessage) :
    Processed s (s.handleCommand message.sessionId message.command).1 message := by
  rw [handleCommand_handled inv message.sessionId message.command]
  exact ⟨rfl, rfl, rfl, rfl⟩

theorem processMessage_processed {s : MatchingEngineService} (inv : s.book.Inv)
    (message : InboundMessage) : Processed s (s.processMessage message) message := by
  have hhandled := handleCommand_processed inv message
  exact ⟨hhandled.book, hhandled.orderSessions, hhandled.outbound,
    (recordCommandResult_outboundBytes _ _ _).trans hhandled.outboundBytes⟩

end MatchingEngineService

end LowLatencyExchange
