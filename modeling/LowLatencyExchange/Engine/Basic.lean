import LowLatencyExchange.EventLog.Basic
import LowLatencyExchange.Gateway.Messages
import LowLatencyExchange.MarketData.Basic
import Mathlib.Data.Finmap
import Mathlib.Tactic

/-!
# The matching engine service

`MatchingEngineService` of `tcp_gateway.cpp`: it takes commands off the inbound queue, runs
them on its book, and answers the sessions. `outbound` is the list of all messages pushed to
the outbound queue. A push waits while that queue is full, so that every message gets there,
in this order; how full the queue was is not recorded.
-/
namespace LowLatencyExchange

open Protocol

abbrev InboundQueue := BoundedFifo 4096 InboundMessage

/-- The counters other than the high-water mark of the outbound queue and the latencies. -/
structure MatchingEngineMetrics where
  acceptedCommands : UInt64
  rejectedCommands : UInt64
  acceptedCancels : UInt64
  rejectedCancels : UInt64
  executions : UInt64
  inboundBytes : UInt64
  outboundBytes : UInt64
  inboundQueueHighWater : Nat
  deriving DecidableEq

/-- The service with the queues and feeds that it refers to. -/
structure MatchingEngineService where
  inbound : InboundQueue
  outbound : List OutboundMessage
  marketDataFeed : Option (MarketDataFeed × MarketDataQueue)
  eventCaptureFeed : Option (EventCaptureFeed × EventCaptureQueue)
  book : OrderBook
  orderSessions : Finmap (fun _ : OrderId => UInt64)
  metrics : MatchingEngineMetrics

namespace MatchingEngineService

def new (marketDataFeed : Option (MarketDataFeed × MarketDataQueue))
    (eventCaptureFeed : Option (EventCaptureFeed × EventCaptureQueue)) : MatchingEngineService :=
  ⟨BoundedFifo.empty, [], marketDataFeed, eventCaptureFeed, OrderBook.empty, ∅,
    ⟨0, 0, 0, 0, 0, 0, 0, 0⟩⟩

/-! ## Answers -/

def recordOutboundMessage (metrics : MatchingEngineMetrics) (msg : OutboundMessage) :
    MatchingEngineMetrics :=
  match expectedPayloadLength msg.type.value with
  | some payloadSize =>
    { metrics with
      outboundBytes := metrics.outboundBytes + UInt64.ofNat (kHeaderSize + payloadSize.toNat) }
  | none => metrics

def pushOutbound (s : MatchingEngineService) (msg : OutboundMessage) : MatchingEngineService :=
  { s with metrics := recordOutboundMessage s.metrics msg, outbound := s.outbound ++ [msg] }

def countExecution (metrics : MatchingEngineMetrics) : MatchingEngineMetrics :=
  { metrics with executions := metrics.executions + 1 }

/-- The body of the loop over the executions of a command, which new orders and replaces
share. -/
def reportExecution (sessionId : UInt64) (sequence : SequenceNumber) (s : MatchingEngineService)
    (exec : Execution) : MatchingEngineService :=
  let restingSessionId := (s.orderSessions.lookup exec.restingOrderId).getD 0
  let s :=
    { s with
      metrics := countExecution s.metrics
      orderSessions :=
        if s.book.contains exec.restingOrderId then s.orderSessions
        else s.orderSessions.erase exec.restingOrderId }
  let execEvent : ExecutionEvent :=
    ⟨sequence, exec.restingOrderId, exec.incomingOrderId, exec.price, exec.quantity⟩
  let s := s.pushOutbound ⟨sessionId, .execution, kFlagMore, .execution execEvent⟩
  if restingSessionId ≠ 0 ∧ restingSessionId ≠ sessionId then
    s.pushOutbound ⟨restingSessionId, .execution, 0, .execution execEvent⟩
  else s

def reportExecutions (sessionId : UInt64) (sequence : SequenceNumber) (s : MatchingEngineService)
    (executions : List Execution) : MatchingEngineService :=
  executions.foldl (reportExecution sessionId sequence) s

/-- A remaining quantity in units, 0 if there is none. -/
def remainingUnits (remainingQuantity : Option Quantity) : UInt64 :=
  remainingQuantity.elim 0 fun quantity => UInt64.ofNat quantity.units

/-! ## Handlers -/

def handleNewOrder (s : MatchingEngineService) (sessionId : UInt64) (order : NewOrder) :
    MatchingEngineService × Bool :=
  let (book, result) := s.book.submit order
  let s := { s with book := book }
  match result.rejection with
  | some reason =>
    (s.pushOutbound ⟨sessionId, .orderRejected, 0,
      .orderRejected ⟨order.sequence, order.orderId, toErrorCode reason⟩⟩, false)
  | none =>
    let s := s.reportExecutions sessionId order.sequence result.executions
    let remaining := remainingUnits result.remainingQuantity
    let s := s.pushOutbound ⟨sessionId, .orderAccepted, 0,
      .orderAccepted ⟨order.sequence, order.orderId, remaining⟩⟩
    (if 0 < remaining ∧ s.book.contains order.orderId then
      { s with orderSessions := s.orderSessions.insert order.orderId sessionId }
    else s, true)

/-- An accepted cancel has a cancelled quantity: the source reads it without a check. -/
def handleCancelOrder (s : MatchingEngineService) (sessionId : UInt64) (order : CancelOrder) :
    MatchingEngineService × Bool :=
  let (book, result) := s.book.cancel order
  let s := { s with book := book }
  match result.rejection, result.cancelledQuantity with
  | none, some cancelledQuantity =>
    let s := { s with orderSessions := s.orderSessions.erase order.orderId }
    (s.pushOutbound ⟨sessionId, .cancelAccepted, 0,
      .cancelAccepted ⟨order.sequence, order.orderId, cancelledQuantity⟩⟩, true)
  | none, none => (s, true)
  | some reason, _ =>
    (s.pushOutbound ⟨sessionId, .cancelRejected, 0,
      .orderRejected ⟨order.sequence, order.orderId, cancelErrorCode reason⟩⟩, false)

def handleReplaceOrder (s : MatchingEngineService) (sessionId : UInt64) (order : ReplaceOrder) :
    MatchingEngineService × Bool :=
  let (book, result) := s.book.replace order
  let s := { s with book := book }
  match result.rejection with
  | some reason =>
    (s.pushOutbound ⟨sessionId, .replaceRejected, 0,
      .orderRejected ⟨order.sequence, order.orderId, replaceErrorCode reason⟩⟩, false)
  | none =>
    let s := s.reportExecutions sessionId order.sequence result.executions
    let remaining := remainingUnits result.remainingQuantity
    let s :=
      if 0 < remaining ∧ s.book.contains order.orderId then
        { s with orderSessions := s.orderSessions.insert order.orderId sessionId }
      else { s with orderSessions := s.orderSessions.erase order.orderId }
    (s.pushOutbound ⟨sessionId, .replaceAccepted, 0,
      .orderAccepted ⟨order.sequence, order.orderId, remaining⟩⟩, true)

def handleCommand (s : MatchingEngineService) (sessionId : UInt64) :
    Command → MatchingEngineService × Bool
  | .submit order => s.handleNewOrder sessionId order
  | .cancel order => s.handleCancelOrder sessionId order
  | .replace order => s.handleReplaceOrder sessionId order

/-! ## One command -/

def isCancel : Command → Bool
  | .cancel _ => true
  | _ => false

def recordCommandResult (metrics : MatchingEngineMetrics) (message : InboundMessage)
    (accepted : Bool) : MatchingEngineMetrics :=
  let metrics :=
    if accepted then { metrics with acceptedCommands := metrics.acceptedCommands + 1 }
    else { metrics with rejectedCommands := metrics.rejectedCommands + 1 }
  if isCancel message.command then
    if accepted then { metrics with acceptedCancels := metrics.acceptedCancels + 1 }
    else { metrics with rejectedCancels := metrics.rejectedCancels + 1 }
  else metrics

def inboundSize (message : InboundMessage) : UInt64 :=
  let type : MessageType :=
    match message.command with
    | .submit _ => .newOrder
    | .cancel _ => .cancelOrder
    | .replace _ => .replaceOrder
  let payloadSize := (expectedPayloadLength type.value).getD 0
  if message.wireBytes ≠ 0 then message.wireBytes.toUInt64
  else UInt64.ofNat (kHeaderSize + payloadSize.toNat)

/-- The part of `process_one` before the inbound queue is popped. -/
def recordInboundOccupancy (s : MatchingEngineService) : MatchingEngineService :=
  { s with metrics :=
      { s.metrics with
        inboundQueueHighWater := max s.metrics.inboundQueueHighWater s.inbound.size } }

/-- The part of `process_one` after the handler has returned. -/
def finishMessage (s : MatchingEngineService) (message : InboundMessage) (accepted : Bool) :
    MatchingEngineService :=
  let metrics := { s.metrics with inboundBytes := s.metrics.inboundBytes + inboundSize message }
  { s with
    metrics := recordCommandResult metrics message accepted
    eventCaptureFeed :=
      if accepted then
        s.eventCaptureFeed.map fun (feed, queue) => feed.capture queue message.command
      else s.eventCaptureFeed
    marketDataFeed := s.marketDataFeed.map fun (feed, queue) =>
      ((feed.publish queue s.book).1, (feed.publish queue s.book).2.1) }

/-- The part of `process_one` after a message was popped. -/
def processMessage (s : MatchingEngineService) (message : InboundMessage) :
    MatchingEngineService :=
  let (s, accepted) := s.handleCommand message.sessionId message.command
  s.finishMessage message accepted

def processOne (s : MatchingEngineService) : MatchingEngineService × Bool :=
  let s := s.recordInboundOccupancy
  match s.inbound.tryPop with
  | none => (s, false)
  | some (message, inbound) => ({ s with inbound := inbound }.processMessage message, true)

/-! ## What the answers leave alone -/

/-- Answering sessions changes neither the book nor the queues and feeds, and counts no
command. -/
structure Answers (s s' : MatchingEngineService) : Prop where
  book : s'.book = s.book
  inbound : s'.inbound = s.inbound
  marketDataFeed : s'.marketDataFeed = s.marketDataFeed
  eventCaptureFeed : s'.eventCaptureFeed = s.eventCaptureFeed
  acceptedCommands : s'.metrics.acceptedCommands = s.metrics.acceptedCommands

namespace Answers

variable {s s' s'' : MatchingEngineService}

theorem refl (s : MatchingEngineService) : Answers s s := ⟨rfl, rfl, rfl, rfl, rfl⟩

theorem trans (h : Answers s s') (h' : Answers s' s'') : Answers s s'' :=
  ⟨h'.book.trans h.book, h'.inbound.trans h.inbound, h'.marketDataFeed.trans h.marketDataFeed,
    h'.eventCaptureFeed.trans h.eventCaptureFeed, h'.acceptedCommands.trans h.acceptedCommands⟩

theorem setSessions (h : Answers s s') (sessions : Finmap (fun _ : OrderId => UInt64)) :
    Answers s { s' with orderSessions := sessions } :=
  ⟨h.book, h.inbound, h.marketDataFeed, h.eventCaptureFeed, h.acceptedCommands⟩

theorem push (h : Answers s s') (msg : OutboundMessage) : Answers s (s'.pushOutbound msg) := by
  refine h.trans ⟨rfl, rfl, rfl, rfl, ?_⟩
  unfold pushOutbound recordOutboundMessage
  dsimp only
  split <;> rfl

theorem execution (h : Answers s s') (sessionId : UInt64) (sequence : SequenceNumber)
    (exec : Execution) : Answers s (reportExecution sessionId sequence s' exec) := by
  have hcounted : ∀ sessions, Answers s
      { s' with metrics := countExecution s'.metrics, orderSessions := sessions } :=
    fun _ => h.trans ⟨rfl, rfl, rfl, rfl, rfl⟩
  unfold reportExecution
  dsimp only
  split_ifs
  · exact ((hcounted _).push _).push _
  · exact ((hcounted _).push _).push _
  · exact (hcounted _).push _
  · exact (hcounted _).push _

theorem executions (h : Answers s s') (sessionId : UInt64) (sequence : SequenceNumber)
    (execs : List Execution) : Answers s (s'.reportExecutions sessionId sequence execs) := by
  induction execs generalizing s' with
  | nil => exact h
  | cons exec execs ih => exact ih (h.execution sessionId sequence exec)

end Answers

/-- A handler runs the command on the book, answers, and returns whether it was accepted. -/
theorem handleCommand_spec (s : MatchingEngineService) (sessionId : UInt64) (command : Command) :
    (s.handleCommand sessionId command).2 = (s.book.step command).2.accepted ∧
    Answers { s with book := (s.book.step command).1 } (s.handleCommand sessionId command).1 := by
  have hrefl := Answers.refl { s with book := (s.book.step command).1 }
  cases command with
  | submit order =>
    simp only [handleCommand, handleNewOrder, OrderBook.step, Result.accepted] at hrefl ⊢
    cases (s.book.submit order).2.rejection with
    | some reason => exact ⟨rfl, hrefl.push _⟩
    | none =>
      refine ⟨rfl, ?_⟩
      dsimp only
      split_ifs
      · exact ((hrefl.executions _ _ _).push _).setSessions _
      · exact (hrefl.executions _ _ _).push _
  | cancel order =>
    simp only [handleCommand, handleCancelOrder, OrderBook.step, Result.accepted] at hrefl ⊢
    cases (s.book.cancel order).2.rejection with
    | some reason => exact ⟨rfl, hrefl.push _⟩
    | none =>
      cases (s.book.cancel order).2.cancelledQuantity with
      | some cancelledQuantity => exact ⟨rfl, (hrefl.setSessions _).push _⟩
      | none => exact ⟨rfl, hrefl⟩
  | replace order =>
    simp only [handleCommand, handleReplaceOrder, OrderBook.step, Result.accepted] at hrefl ⊢
    cases (s.book.replace order).2.rejection with
    | some reason => exact ⟨rfl, hrefl.push _⟩
    | none =>
      refine ⟨rfl, ?_⟩
      dsimp only
      split_ifs
      · exact ((hrefl.executions _ _ _).setSessions _).push _
      · exact ((hrefl.executions _ _ _).setSessions _).push _

theorem recordCommandResult_accepted (metrics : MatchingEngineMetrics) (message : InboundMessage)
    (accepted : Bool) :
    (recordCommandResult metrics message accepted).acceptedCommands =
      if accepted then metrics.acceptedCommands + 1 else metrics.acceptedCommands := by
  unfold recordCommandResult
  dsimp only
  split_ifs <;> rfl

/-- A message moves the book by one step. If the command was accepted, it is counted and
captured. -/
theorem processMessage_spec (s : MatchingEngineService) (message : InboundMessage) :
    (s.processMessage message).book = (s.book.step message.command).1 ∧
    (s.processMessage message).inbound = s.inbound ∧
    (s.processMessage message).metrics.acceptedCommands =
      (if (s.book.step message.command).2.accepted then s.metrics.acceptedCommands + 1
      else s.metrics.acceptedCommands) ∧
    (s.processMessage message).eventCaptureFeed =
      if (s.book.step message.command).2.accepted then
        s.eventCaptureFeed.map fun x => x.1.capture x.2 message.command
      else s.eventCaptureFeed := by
  obtain ⟨haccepted, hanswers⟩ := handleCommand_spec s message.sessionId message.command
  unfold processMessage
  generalize s.handleCommand message.sessionId message.command = out at haccepted hanswers
  obtain ⟨s', accepted⟩ := out
  obtain rfl : accepted = _ := haccepted
  dsimp only
  refine ⟨hanswers.book, hanswers.inbound, ?_, ?_⟩
  · rw [finishMessage, recordCommandResult_accepted, hanswers.acceptedCommands]
  · rw [finishMessage, hanswers.eventCaptureFeed]

end MatchingEngineService

end LowLatencyExchange
