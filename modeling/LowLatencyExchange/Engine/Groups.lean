import LowLatencyExchange.Engine.Sessions
import Mathlib.Tactic

/-!
# What one session sees

The messages to one session are a sequence of response groups, one for each of its commands,
with single fill reports between them for its resting orders that others traded with. The
last message of a group is the only one in it without the more flag, so that a client can
tell the groups apart.
-/
namespace LowLatencyExchange

open Protocol MatchingEngineService

/-- A processed message, and the messages that were processed before it. -/
structure Served where
  earlier : List InboundMessage
  message : InboundMessage

namespace Served

def before (x : Served) : OrderBook := OrderBook.run (x.earlier.map InboundMessage.command)
def after (x : Served) : OrderBook := (x.before.step x.message.command).1
def result (x : Served) : Result := (x.before.step x.message.command).2

def terminal (x : Served) : OutboundMessage :=
  MatchingEngineService.terminal x.message.sessionId x.before x.message.command

/-- The messages to the session of the command. -/
def group (x : Served) : List OutboundMessage :=
  x.result.executions.map (ownReport x.message.sessionId x.message.command.sequence) ++ [x.terminal]

/-- The messages to another session, about the orders that it held. -/
def fills (sessionId : UInt64) (x : Served) : List OutboundMessage :=
  (x.result.executions.filter fun exec => holder x.earlier exec.restingOrderId = some sessionId).map
    fun exec => fillReport x.message.command.sequence exec sessionId

/-- The units that a book holds for an id, 0 if there is no such order. -/
def restingUnits (book : OrderBook) (id : OrderId) : UInt64 :=
  (book.active id).elim 0 fun a => UInt64.ofNat a.remainingQuantity.units

/-- What a terminal message says, by kind of command. -/
def Answer (x : Served) (type : MessageType) (payload : OutboundPayload) : Prop :=
  match x.message.command with
  | .submit order =>
    if x.result.accepted then
      type = .orderAccepted ∧ payload = .orderAccepted
        ⟨order.sequence, order.orderId, restingUnits x.after order.orderId⟩
    else
      type = .orderRejected ∧
        ∃ code, payload = .orderRejected ⟨order.sequence, order.orderId, code⟩
  | .cancel order =>
    if x.result.accepted then
      type = .cancelAccepted ∧ ∃ a, x.before.active order.orderId = some a ∧
        payload = .cancelAccepted ⟨order.sequence, order.orderId, a.remainingQuantity⟩
    else
      type = .cancelRejected ∧
        ∃ code, payload = .orderRejected ⟨order.sequence, order.orderId, code⟩
  | .replace order =>
    if x.result.accepted then
      type = .replaceAccepted ∧ payload = .orderAccepted
        ⟨order.sequence, order.orderId, restingUnits x.after order.orderId⟩
    else
      type = .replaceRejected ∧
        ∃ code, payload = .orderRejected ⟨order.sequence, order.orderId, code⟩

/-- A response group ends with one message of its own kind, and has executions only if the
command was an accepted new order or replace. -/
structure GroupEnds (x : Served) : Prop where
  sessionId : x.terminal.sessionId = x.message.sessionId
  flags : x.terminal.flags = 0
  answer : x.Answer x.terminal.type x.terminal.payload
  rejected : x.result.accepted = false → x.result.executions = []
  cancel : isCancel x.message.command = true → x.result.executions = []

theorem restingUnits_eq (book : OrderBook) (id : OrderId) :
    restingUnits book id =
      remainingUnits ((book.active id).map ActiveOrder.remainingQuantity) := by
  rw [restingUnits, remainingUnits]
  cases book.active id <;> rfl

theorem effect (x : Served) : Effect x.before.active x.after.active x.message.command x.result :=
  (OrderBook.run_inv _).step_effect _

theorem terminal_answer (x : Served) : x.Answer x.terminal.type x.terminal.payload := by
  have heffect := x.effect
  obtain ⟨earlier, sessionId, command, wireBytes⟩ := x
  cases command with
  | submit order =>
    rcases hout : (OrderBook.run (earlier.map InboundMessage.command)).submit order with
      ⟨after, executions, rejection, remainingQuantity⟩
    simp only [Answer, terminal, MatchingEngineService.terminal, Served.after, result, before,
      OrderBook.step, Result.accepted, restingUnits_eq, hout] at heffect ⊢
    cases rejection with
    | some reason => simp
    | none =>
      have hremaining : remainingQuantity =
        (after.active order.orderId).map ActiveOrder.remainingQuantity := (heffect.accepted rfl).2
      simp [hremaining]
  | cancel order =>
    rcases hout : (OrderBook.run (earlier.map InboundMessage.command)).cancel order with
      ⟨after, orderId, cancelledQuantity, rejection⟩
    simp only [Answer, terminal, MatchingEngineService.terminal, Served.after, result, before,
      OrderBook.step, Result.accepted, hout] at heffect ⊢
    cases rejection with
    | some reason => simp
    | none =>
      obtain ⟨-, hsome, hreported⟩ := heffect.accepted rfl
      obtain ⟨a, ha⟩ := Option.isSome_iff_exists.mp hsome
      rw [ha, Option.map_some] at hreported
      exact ⟨rfl, a, ha, by rw [show cancelledQuantity = _ from hreported]; rfl⟩
  | replace order =>
    rcases hout : (OrderBook.run (earlier.map InboundMessage.command)).replace order with
      ⟨after, orderId, executions, remainingQuantity, rejection⟩
    simp only [Answer, terminal, MatchingEngineService.terminal, Served.after, result, before,
      OrderBook.step, Result.accepted, restingUnits_eq, hout] at heffect ⊢
    cases rejection with
    | some reason => simp
    | none =>
      have hremaining : remainingQuantity =
        (after.active order.orderId).map ActiveOrder.remainingQuantity := heffect.accepted rfl
      simp [hremaining]

theorem terminal_addressed (sessionId : UInt64) (book : OrderBook) (c : Command) :
    (MatchingEngineService.terminal sessionId book c).sessionId = sessionId ∧
      (MatchingEngineService.terminal sessionId book c).flags = 0 := by
  cases c with
  | submit order =>
    simp only [MatchingEngineService.terminal]
    cases (book.submit order).2.rejection <;> exact ⟨rfl, rfl⟩
  | cancel order =>
    simp only [MatchingEngineService.terminal]
    cases (book.cancel order).2.rejection <;> exact ⟨rfl, rfl⟩
  | replace order =>
    simp only [MatchingEngineService.terminal]
    cases (book.replace order).2.rejection <;> exact ⟨rfl, rfl⟩

theorem groupEnds (x : Served) : x.GroupEnds where
  sessionId := (terminal_addressed _ _ _).1
  flags := (terminal_addressed _ _ _).2
  answer := x.terminal_answer
  rejected h := (x.effect.rejected h).1
  cancel h := by
    obtain ⟨earlier, sessionId, command, wireBytes⟩ := x
    cases command with
    | cancel order => rfl
    | submit order => cases h
    | replace order => cases h

/-- The messages for one execution that go to a session. -/
theorem filter_executionReports {sessions : OrderId → Option UInt64} {exec : Execution}
    {restingSession : UInt64} (hmapped : sessions exec.restingOrderId = some restingSession)
    (hnonzero : restingSession ≠ 0) (sender : UInt64) (sequence : SequenceNumber)
    (sessionId : UInt64) :
    (executionReports sender sequence sessions exec).filter (fun msg => msg.sessionId = sessionId) =
      if sender = sessionId then [ownReport sender sequence exec]
      else if restingSession = sessionId then [fillReport sequence exec sessionId] else [] := by
  have hresting : (sessions exec.restingOrderId).getD 0 = restingSession := by rw [hmapped]; rfl
  simp only [executionReports, hresting]
  by_cases hsender : sender = sessionId
  · subst hsender
    by_cases hsame : restingSession = sender
    · simp [ownReport, hsame]
    · simp [ownReport, fillReport, hsame, hnonzero]
  · by_cases hsame : restingSession = sender
    · subst hsame
      simp [ownReport, hsender]
    · by_cases hfill : restingSession = sessionId
      · subst hfill
        simp [ownReport, fillReport, hsame, hsender, hnonzero]
      · simp [ownReport, fillReport, hsame, hsender, hnonzero, hfill]

theorem filter_responses (x : Served) (sessions : OrderId → Option UInt64)
    (h : ∀ exec ∈ x.result.executions, ∃ restingSession ≠ 0,
      sessions exec.restingOrderId = some restingSession ∧
      holder x.earlier exec.restingOrderId = some restingSession) (sessionId : UInt64) :
    (responses x.message.sessionId x.before sessions x.message.command).filter
        (fun msg => msg.sessionId = sessionId) =
      if x.message.sessionId = sessionId then x.group else x.fills sessionId := by
  have hterminal := (terminal_addressed x.message.sessionId x.before x.message.command).1
  simp only [responses, List.filter_append, List.filter_flatMap]
  by_cases hown : x.message.sessionId = sessionId
  · have hexecutions : ∀ exec ∈ x.result.executions,
        (executionReports x.message.sessionId x.message.command.sequence sessions exec).filter
          (fun msg => msg.sessionId = sessionId) =
        [ownReport x.message.sessionId x.message.command.sequence exec] := by
      intro exec hexec
      obtain ⟨restingSession, hnonzero, hmapped, -⟩ := h exec hexec
      rw [filter_executionReports hmapped hnonzero, if_pos hown]
    have hflat := List.flatMap_congr hexecutions
    rw [← List.map_eq_flatMap] at hflat
    rw [if_pos hown, group]
    refine congrArg₂ (· ++ ·) hflat ?_
    simp [terminal, hterminal.trans hown]
  · have hexecutions : ∀ exec ∈ x.result.executions,
        (executionReports x.message.sessionId x.message.command.sequence sessions exec).filter
          (fun msg => msg.sessionId = sessionId) =
        if holder x.earlier exec.restingOrderId = some sessionId then
          [fillReport x.message.command.sequence exec sessionId]
        else [] := by
      intro exec hexec
      obtain ⟨restingSession, hnonzero, hmapped, hholder⟩ := h exec hexec
      rw [filter_executionReports hmapped hnonzero, if_neg hown, hholder]
      simp only [Option.some.injEq]
    have hflat := List.flatMap_congr hexecutions
    have hlast : [MatchingEngineService.terminal x.message.sessionId x.before
        x.message.command].filter (fun msg => msg.sessionId = sessionId) = [] := by
      simp [hterminal, hown]
    rw [if_neg hown, fills, hlast, List.append_nil]
    refine hflat.trans ?_
    induction x.result.executions with
    | nil => rfl
    | cons exec executions ih =>
      rw [List.flatMap_cons, ih, List.filter_cons]
      by_cases hfill : holder x.earlier exec.restingOrderId = some sessionId <;> simp [hfill]

end Served

/-- The messages, each with those before it. -/
def servedFrom (earlier : List InboundMessage) : List InboundMessage → List Served
  | [] => []
  | message :: messages => ⟨earlier, message⟩ :: servedFrom (earlier ++ [message]) messages

def served (messages : List InboundMessage) : List Served := servedFrom [] messages

theorem servedFrom_concat (earlier messages : List InboundMessage) (message : InboundMessage) :
    servedFrom earlier (messages ++ [message]) =
      servedFrom earlier messages ++ [⟨earlier ++ messages, message⟩] := by
  induction messages generalizing earlier with
  | nil => simp [servedFrom]
  | cons m messages ih => simp [servedFrom, ih]

theorem served_concat (messages : List InboundMessage) (message : InboundMessage) :
    served (messages ++ [message]) = served messages ++ [⟨messages, message⟩] :=
  servedFrom_concat [] messages message

/-- The messages to a session are its groups and the fills between them. -/
structure GroupsInv (s : MatchingEngineService) (processed : List InboundMessage) : Prop where
  sessions : SessionsInv s processed
  outbound : (∀ message ∈ processed, message.sessionId ≠ 0) → ∀ sessionId,
    s.outbound.filter (fun msg => msg.sessionId = sessionId) =
      (served processed).flatMap fun x =>
        if x.message.sessionId = sessionId then x.group else x.fills sessionId

theorem GroupsInv.handle {s : MatchingEngineService} {processed : List InboundMessage}
    (h : GroupsInv s processed) (message : InboundMessage) :
    GroupsInv (s.handleCommand message.sessionId message.command).1 (processed ++ [message]) := by
  refine ⟨h.sessions.handle message, ?_⟩
  intro hnonzero sessionId
  have hprocessed := handleCommand_processed h.sessions.inv message
  have hbefore : s.book = (Served.mk processed message).before := h.sessions.book
  have hearlier : ∀ m ∈ processed, m.sessionId ≠ 0 :=
    fun m hm => hnonzero m (List.mem_append_left _ hm)
  have hmapped : ∀ exec ∈ (Served.mk processed message).result.executions,
      ∃ restingSession ≠ 0, s.orderSessions.lookup exec.restingOrderId = some restingSession ∧
        holder processed exec.restingOrderId = some restingSession := by
    intro exec hexec
    have hresting := ((Served.mk processed message).effect.resting exec.restingOrderId
      (List.mem_map_of_mem hexec)).2
    rw [← hbefore, ← h.sessions.inv.contains_eq] at hresting
    obtain ⟨restingSession, hholder⟩ := Option.isSome_iff_exists.mp (h.sessions.held _ hresting)
    obtain ⟨m, hm, rfl⟩ := holder_mem hholder
    refine ⟨m.sessionId, hearlier m hm, ?_, hholder⟩
    rw [h.sessions.sessions, if_pos hresting, hholder]
  have hfilter := (Served.mk processed message).filter_responses (fun id =>
    s.orderSessions.lookup id) hmapped sessionId
  rw [hprocessed.outbound, List.filter_append, h.outbound hearlier, served_concat,
    List.flatMap_append, List.flatMap_singleton, hbefore, hfilter]

theorem groupsInv_rule : EngineRun.CallRule GroupsInv where
  start marketDataFeed eventCaptureFeed :=
    ⟨sessionsInv_rule.start marketDataFeed eventCaptureFeed, fun _ _ => rfl⟩
  inbound h inbound := ⟨sessionsInv_rule.inbound h.sessions inbound, h.outbound⟩
  occupancy h := ⟨sessionsInv_rule.occupancy h.sessions, h.outbound⟩
  handle h message := h.handle message
  finish h message accepted := ⟨sessionsInv_rule.finish h.sessions message accepted, h.outbound⟩

/-- In every run on messages with non-zero session ids, what a session is sent is the groups of
its own commands, in the order they were processed, with the fills of its resting orders by
commands of other sessions in between. The books that the groups refer to are the engine's. -/
theorem EngineRun.session_groups (marketDataFeed : Option (MarketDataFeed × MarketDataQueue))
    (eventCaptureFeed : Option (EventCaptureFeed × EventCaptureQueue)) (events : List EngineEvent)
    (hnonzero : ∀ message ∈ events.filterMap received, message.sessionId ≠ 0) :
    (∀ sessionId, (run marketDataFeed eventCaptureFeed events).service.outbound.filter
        (fun msg => msg.sessionId = sessionId) =
      (served (run marketDataFeed eventCaptureFeed events).processed).flatMap fun x =>
        if x.message.sessionId = sessionId then x.group else x.fills sessionId) ∧
    (∀ x ∈ served (run marketDataFeed eventCaptureFeed events).processed, x.GroupEnds) ∧
    (run marketDataFeed eventCaptureFeed events).service.book =
      OrderBook.run ((run marketDataFeed eventCaptureFeed events).processed.map
        InboundMessage.command) := by
  have h := groupsInv_rule.rule.run marketDataFeed eventCaptureFeed events
  have hreceived := run_received marketDataFeed eventCaptureFeed events
  refine ⟨h.outbound ?_, fun x _ => x.groupEnds, h.sessions.book⟩
  intro message hmessage
  exact hnonzero message (hreceived.subset (List.mem_append_left _ hmessage))

/-- Session 1 sells to session 2 and to itself, and cancels what is left. -/
def selfTrade : List EngineEvent :=
  [.receive ⟨1, .submit ⟨SequenceNumber.of 1, OrderId.of 10, .sell, .limit, Quantity.of 9,
      some (Price.of 100)⟩, 48⟩,
    .receive ⟨2, .submit ⟨SequenceNumber.of 1, OrderId.of 20, .buy, .market, Quantity.of 2,
      none⟩, 48⟩,
    .process, .process,
    .receive ⟨1, .submit ⟨SequenceNumber.of 2, OrderId.of 11, .buy, .limit, Quantity.of 3,
      some (Price.of 100)⟩, 48⟩,
    .receive ⟨1, .cancel ⟨SequenceNumber.of 3, OrderId.of 10⟩, 24⟩,
    .process, .process]

theorem selfTrade_groups :
    ((EngineRun.run none none selfTrade).service.outbound.filter
      (fun msg => msg.sessionId = 1)).map (fun msg => (msg.type, msg.flags)) =
      [(.orderAccepted, 0), (.execution, 0), (.execution, kFlagMore), (.orderAccepted, 0),
        (.cancelAccepted, 0)] ∧
    ∀ x ∈ served (EngineRun.run none none selfTrade).processed, x.GroupEnds :=
  ⟨by decide +kernel, (EngineRun.session_groups none none selfTrade (by decide +kernel)).2.1⟩

end LowLatencyExchange
