import LowLatencyExchange.Engine.Responses
import Mathlib.Tactic

/-!
# The session of a resting order

The engine keeps the session of each resting order in a map of its own, beside a book that
removes orders as a side effect of matching. In every run the map has exactly the resting
orders, each with the session of the latest accepted new order or replace for its id, so that
every fill of a resting order finds the session it is reported to.
-/
namespace LowLatencyExchange

/-- The id that a command puts an order under. -/
def Command.placedId : Command → Option OrderId
  | .submit order => some order.orderId
  | .cancel _ => none
  | .replace command => some command.orderId

/-- Messages, each with what its command returned. -/
def commandResults (messages : List InboundMessage) : List (InboundMessage × Result) :=
  messages.zip (OrderBook.results (messages.map InboundMessage.command))

/-- An accepted new order or replace for an id. -/
def places (id : OrderId) (x : InboundMessage × Result) : Bool :=
  x.2.accepted && x.1.command.placedId = some id

/-- The session of the latest accepted new order or replace for an id. -/
def holder (messages : List InboundMessage) (id : OrderId) : Option UInt64 :=
  ((commandResults messages).filter (places id)).getLast?.map fun x => x.1.sessionId

theorem commandResults_concat (messages : List InboundMessage) (message : InboundMessage) :
    commandResults (messages ++ [message]) = commandResults messages ++
      [(message, ((OrderBook.run (messages.map InboundMessage.command)).step message.command).2)] := by
  have hlength : messages.length = (Transducer.outputs OrderBook.step OrderBook.empty
      (messages.map InboundMessage.command)).length := by
    rw [Transducer.outputs_length, List.length_map]
  rw [commandResults, List.map_append, OrderBook.results, List.map_singleton,
    Transducer.outputs_concat, List.zip_append hlength]
  rfl

theorem holder_concat (messages : List InboundMessage) (message : InboundMessage) (id : OrderId) :
    holder (messages ++ [message]) id =
      if places id (message,
        ((OrderBook.run (messages.map InboundMessage.command)).step message.command).2) then
        some message.sessionId
      else holder messages id := by
  rw [holder, commandResults_concat, List.filter_append, List.filter_singleton, List.getLast?_append]
  cases places id (message,
    ((OrderBook.run (messages.map InboundMessage.command)).step message.command).2) with
  | true => rfl
  | false => rfl

theorem holder_mem {messages : List InboundMessage} {id : OrderId} {sessionId : UInt64}
    (h : holder messages id = some sessionId) : ∃ m ∈ messages, m.sessionId = sessionId := by
  obtain ⟨x, hx, rfl⟩ := Option.map_eq_some_iff.mp h
  have hmem := List.mem_of_mem_filter (List.mem_of_getLast? hx)
  exact ⟨x.1, (List.of_mem_zip hmem).1, rfl⟩

namespace MatchingEngineService

/-- An accepted command changes the session of its own order, and drops those of filled orders. -/
theorem lookup_nextSessions_other {book : OrderBook} (sessions : OrderSessions) (sessionId : UInt64)
    {c : Command} (haccepted : (book.step c).2.accepted = true) {id : OrderId}
    (hown : id ≠ c.orderId) :
    (nextSessions sessionId book sessions c).lookup id =
      (forgetFilled (book.step c).1 sessions (book.step c).2.executions).lookup id := by
  simp only [nextSessions, haccepted, if_true]
  cases c with
  | submit order =>
    dsimp only
    split_ifs
    · exact Finmap.lookup_insert_of_ne _ hown
    · rfl
  | cancel order => exact Finmap.lookup_erase_ne hown
  | replace order =>
    dsimp only
    split_ifs
    · exact Finmap.lookup_insert_of_ne _ hown
    · exact Finmap.lookup_erase_ne hown

section

variable {book : OrderBook} (inv : book.Inv) {sessions : OrderSessions}
  (hkeys : ∀ id, book.contains id = false → sessions.lookup id = none) (sessionId : UInt64)
include inv hkeys

theorem lookup_nextSessions_own {c : Command} (haccepted : (book.step c).2.accepted = true) :
    (nextSessions sessionId book sessions c).lookup c.orderId =
      if (book.step c).1.contains c.orderId ∧ c.placedId = some c.orderId then some sessionId
      else none := by
  have heffect := inv.step_effect c
  have hreports := heffect.accepted haccepted
  cases c with
  | submit order =>
    cases hc : (book.step (.submit order)).1.contains order.orderId with
    | true =>
      simp only [nextSessions, haccepted, if_true, Command.orderId, Command.placedId, hc, and_self]
      exact Finmap.lookup_insert _
    | false =>
      have hnot : order.orderId ∉ (book.step (.submit order)).2.executions.map
          Execution.restingOrderId := fun h => (heffect.resting _ h).1 rfl
      have habsent : book.active order.orderId = none := hreports.1
      simp only [nextSessions, haccepted, if_true, Command.orderId, hc, Bool.false_eq_true, if_false,
        false_and, lookup_forgetFilled, hnot]
      exact hkeys _ (by simp [inv.contains_eq, habsent])
  | cancel order =>
    simp only [nextSessions, haccepted, if_true, Command.orderId, Command.placedId, reduceCtorEq,
      and_false, if_false]
    exact Finmap.lookup_erase _ _
  | replace order =>
    cases hc : (book.step (.replace order)).1.contains order.orderId with
    | true =>
      simp only [nextSessions, haccepted, if_true, Command.orderId, Command.placedId, hc, and_self]
      exact Finmap.lookup_insert _
    | false =>
      simp only [nextSessions, haccepted, if_true, Command.orderId, hc, Bool.false_eq_true, if_false,
        false_and]
      exact Finmap.lookup_erase _ _

/-- The session map after a command, by id. -/
theorem lookup_nextSessions (c : Command) (id : OrderId) :
    (nextSessions sessionId book sessions c).lookup id =
      if (book.step c).1.contains id then
        if (book.step c).2.accepted ∧ c.placedId = some id then some sessionId
        else sessions.lookup id
      else none := by
  have heffect := inv.step_effect c
  have hafter := (OrderBook.step_spec inv c).1.contains_eq
  cases haccepted : (book.step c).2.accepted with
  | false =>
    obtain ⟨-, hsame⟩ := heffect.rejected haccepted
    have hcontains : (book.step c).1.contains id = book.contains id := by
      rw [hafter, inv.contains_eq, hsame]
    simp only [nextSessions, haccepted, Bool.false_eq_true, if_false, false_and, hcontains]
    split_ifs with hc
    · rfl
    · exact hkeys id (by simpa using hc)
  | true =>
    by_cases hown : id = c.orderId
    · subst hown
      rw [lookup_nextSessions_own inv hkeys sessionId haccepted]
      cases hc : (book.step c).1.contains c.orderId with
      | false => simp
      | true =>
        have hplaced : c.placedId = some c.orderId := by
          cases c with
          | submit order => rfl
          | cancel order =>
            have hgone : (book.step (.cancel order)).1.active order.orderId = none :=
              (heffect.accepted haccepted).1
            have hnone := hafter order.orderId
            rw [hgone] at hnone
            exact absurd (hc.symm.trans hnone) (by simp)
          | replace order => rfl
        simp [hplaced]
    · have hplaced : c.placedId ≠ some id := by
        cases c with
        | submit order => exact fun h => hown (Option.some.inj h).symm
        | cancel order => simp [Command.placedId]
        | replace order => exact fun h => hown (Option.some.inj h).symm
      rw [lookup_nextSessions_other sessions sessionId haccepted hown, lookup_forgetFilled]
      simp only [hplaced, and_false, if_false]
      cases hc : (book.step c).1.contains id with
      | true => simp
      | false =>
        simp only [and_true, Bool.false_eq_true, if_false]
        split_ifs with hmem
        · rfl
        · -- An order that is gone without an execution was not there before.
          refine hkeys id ?_
          rw [inv.contains_eq, ← heffect.others id hown hmem, ← hafter, hc]

end

/-- An order that rests after a command and was not placed by it rested before. -/
theorem contains_of_not_placed {book : OrderBook} (inv : book.Inv) {c : Command} {id : OrderId}
    (hrests : (book.step c).1.contains id = true)
    (hplaced : ¬ ((book.step c).2.accepted ∧ c.placedId = some id)) : book.contains id = true := by
  have heffect := inv.step_effect c
  rw [(OrderBook.step_spec inv c).1.contains_eq] at hrests
  rw [inv.contains_eq]
  cases haccepted : (book.step c).2.accepted with
  | false => rwa [← (heffect.rejected haccepted).2]
  | true =>
    by_cases hown : id = c.orderId
    · subst hown
      cases c with
      | submit order => exact absurd ⟨haccepted, rfl⟩ hplaced
      | replace order => exact absurd ⟨haccepted, rfl⟩ hplaced
      | cancel order =>
        have hgone := (heffect.accepted haccepted).1
        rw [hgone] at hrests
        cases hrests
    · by_contra hnone
      rw [heffect.absent id hown (by simpa using hnone)] at hrests
      cases hrests

/-- The session map is the holders of the resting orders. -/
structure SessionsInv (s : MatchingEngineService) (processed : List InboundMessage) : Prop where
  book : s.book = OrderBook.run (processed.map InboundMessage.command)
  sessions : ∀ id, s.orderSessions.lookup id =
    if s.book.contains id then holder processed id else none
  held : ∀ id, s.book.contains id = true → (holder processed id).isSome

theorem SessionsInv.inv {s : MatchingEngineService} {processed : List InboundMessage}
    (h : SessionsInv s processed) : s.book.Inv := h.book ▸ OrderBook.run_inv _

theorem SessionsInv.handle {s : MatchingEngineService} {processed : List InboundMessage}
    (h : SessionsInv s processed) (message : InboundMessage) :
    SessionsInv (s.handleCommand message.sessionId message.command).1 (processed ++ [message]) := by
  have hprocessed := handleCommand_processed h.inv message
  have hkeys : ∀ id, s.book.contains id = false → s.orderSessions.lookup id = none := by
    intro id hid
    rw [h.sessions, hid]
    rfl
  have hholder : ∀ id, holder (processed ++ [message]) id =
      if (s.book.step message.command).2.accepted ∧ message.command.placedId = some id then
        some message.sessionId
      else holder processed id := by
    intro id
    rw [holder_concat, ← h.book]
    simp [places]
  refine ⟨?_, ?_, ?_⟩
  · rw [hprocessed.book, h.book, List.map_append, List.map_singleton, OrderBook.run_concat]
  · intro id
    rw [hprocessed.orderSessions, hprocessed.book, hholder,
      lookup_nextSessions h.inv hkeys]
    split_ifs with hrests hplaced
    · rfl
    · rw [h.sessions, if_pos (contains_of_not_placed h.inv hrests hplaced)]
    · rfl
  · intro id hrests
    rw [hprocessed.book] at hrests
    rw [hholder]
    split_ifs with hplaced
    · rfl
    · exact h.held id (contains_of_not_placed h.inv hrests hplaced)

theorem sessionsInv_rule : EngineRun.CallRule SessionsInv where
  start _ _ :=
    { book := rfl
      sessions := fun _ => rfl
      held := fun _ h => by cases h }
  inbound h _ := ⟨h.book, h.sessions, h.held⟩
  occupancy h := ⟨h.book, h.sessions, h.held⟩
  handle h message := h.handle message
  finish h _ _ := ⟨h.book, h.sessions, h.held⟩

/-- The types of the message that ends a response group. -/
def terminalTypes : List Protocol.MessageType :=
  [.orderAccepted, .orderRejected, .cancelAccepted, .cancelRejected, .replaceAccepted,
    .replaceRejected]

theorem terminal_mem_terminalTypes (sessionId : UInt64) (book : OrderBook) (c : Command) :
    (terminal sessionId book c).type ∈ terminalTypes := by
  cases c with
  | submit order =>
    simp only [terminal]
    cases (book.submit order).2.rejection <;> simp [terminalTypes]
  | cancel order =>
    simp only [terminal]
    cases (book.cancel order).2.rejection <;> simp [terminalTypes]
  | replace order =>
    simp only [terminal]
    cases (book.replace order).2.rejection <;> simp [terminalTypes]

theorem execution_not_mem_terminalTypes : Protocol.MessageType.execution ∉ terminalTypes := by decide

theorem terminal_type (sessionId : UInt64) (book : OrderBook) (c : Command) :
    (terminal sessionId book c).type ≠ .execution := by
  intro hexecution
  have hmem := terminal_mem_terminalTypes sessionId book c
  rw [hexecution] at hmem
  exact execution_not_mem_terminalTypes hmem

end MatchingEngineService

namespace EngineRun

open MatchingEngineService

/-- The session map, and what the next message is answered from it. -/
structure SessionsExact (r : EngineRun) : Prop where
  keys : ∀ id, id ∈ r.service.orderSessions ↔ r.service.book.contains id = true
  holders : ∀ id sessionId, r.service.orderSessions.lookup id = some sessionId →
    holder r.processed id = some sessionId
  /-- Each execution is reported to the session of the command, and to the session that the
  resting order has in the map if that is another one. -/
  reports : ∀ message inbound, r.service.inbound.tryPop = some (message, inbound) →
    ∃ restingSession : Execution → UInt64,
      (∀ exec ∈ (r.service.book.step message.command).2.executions,
        r.service.orderSessions.lookup exec.restingOrderId = some (restingSession exec) ∧
        restingSession exec ≠ 0) ∧
      r.service.processOne.1.outbound = r.service.outbound ++
        (r.service.book.step message.command).2.executions.flatMap (fun exec =>
          ownReport message.sessionId message.command.sequence exec ::
            if restingSession exec ≠ message.sessionId then
              [fillReport message.command.sequence exec (restingSession exec)]
            else []) ++
        [terminal message.sessionId r.service.book message.command] ∧
      (terminal message.sessionId r.service.book message.command).type ≠ .execution

theorem processOne_processed {s : MatchingEngineService} (inv : s.book.Inv)
    {message : InboundMessage} {inbound : InboundQueue}
    (hpop : s.inbound.tryPop = some (message, inbound)) :
    Processed s s.processOne.1 message := by
  have hpop' : s.recordInboundOccupancy.inbound.tryPop = some (message, inbound) := hpop
  have hone : s.processOne.1 =
      { s.recordInboundOccupancy with inbound := inbound }.processMessage message := by
    simp only [processOne, hpop']
  rw [hone]
  have hprocessed := @processMessage_processed
    { s.recordInboundOccupancy with inbound := inbound } inv message
  exact ⟨hprocessed.book, hprocessed.orderSessions, hprocessed.outbound, hprocessed.outboundBytes⟩

/-- In every run on messages with non-zero session ids the session map is exact, and no fill of
a resting order is left unreported. -/
theorem sessions_exact (marketDataFeed : Option (MarketDataFeed × MarketDataQueue))
    (eventCaptureFeed : Option (EventCaptureFeed × EventCaptureQueue)) (events : List EngineEvent)
    (hnonzero : ∀ message ∈ events.filterMap received, message.sessionId ≠ 0) :
    (run marketDataFeed eventCaptureFeed events).SessionsExact := by
  have h := sessionsInv_rule.rule.run marketDataFeed eventCaptureFeed events
  have hreceived := run_received marketDataFeed eventCaptureFeed events
  generalize run marketDataFeed eventCaptureFeed events = r at h hreceived
  have hheld : ∀ id, r.service.book.contains id = true →
      ∃ sessionId, r.service.orderSessions.lookup id = some sessionId ∧
        holder r.processed id = some sessionId := by
    intro id hid
    obtain ⟨sessionId, hholder⟩ := Option.isSome_iff_exists.mp (h.held id hid)
    exact ⟨sessionId, by rw [h.sessions, if_pos hid, hholder], hholder⟩
  have hrest : ∀ {id sessionId}, r.service.orderSessions.lookup id = some sessionId →
      r.service.book.contains id = true := by
    intro id sessionId hlookup
    by_contra hnot
    rw [h.sessions, if_neg hnot] at hlookup
    cases hlookup
  refine ⟨?_, ?_, ?_⟩
  · intro id
    rw [Finmap.mem_iff]
    constructor
    · rintro ⟨sessionId, hlookup⟩
      exact hrest hlookup
    · intro hid
      obtain ⟨sessionId, hlookup, -⟩ := hheld id hid
      exact ⟨sessionId, hlookup⟩
  · intro id sessionId hlookup
    have hcontains := hrest hlookup
    rwa [h.sessions, if_pos hcontains] at hlookup
  · intro message inbound hpop
    have hprocessed := processOne_processed h.inv hpop
    have hmapped : ∀ exec ∈ (r.service.book.step message.command).2.executions,
        r.service.orderSessions.lookup exec.restingOrderId =
          some ((r.service.orderSessions.lookup exec.restingOrderId).getD 0) ∧
        (r.service.orderSessions.lookup exec.restingOrderId).getD 0 ≠ 0 := by
      intro exec hexec
      have hresting := ((h.inv.step_effect message.command).resting exec.restingOrderId
        (List.mem_map_of_mem hexec)).2
      rw [← h.inv.contains_eq] at hresting
      obtain ⟨sessionId, hlookup, hholder⟩ := hheld _ hresting
      obtain ⟨m, hm, rfl⟩ := holder_mem hholder
      rw [hlookup]
      exact ⟨rfl, hnonzero m (hreceived.subset (List.mem_append_left _ hm))⟩
    refine ⟨fun exec => (r.service.orderSessions.lookup exec.restingOrderId).getD 0, hmapped, ?_,
      terminal_type _ _ _⟩
    rw [hprocessed.outbound, responses, List.append_assoc]
    congr 2
    refine List.flatMap_congr fun exec hexec => ?_
    simp [executionReports, (hmapped exec hexec).2]

/-- Session 1 rests two sales. Session 2 takes the first and a part of the second, and session 1
replaces the rest. -/
def twoSessions : List EngineEvent :=
  [.receive ⟨1, .submit ⟨SequenceNumber.of 1, OrderId.of 10, .sell, .limit, Quantity.of 5,
      some (Price.of 100)⟩, 48⟩,
    .receive ⟨1, .submit ⟨SequenceNumber.of 2, OrderId.of 11, .sell, .limit, Quantity.of 5,
      some (Price.of 101)⟩, 48⟩,
    .process,
    .receive ⟨2, .submit ⟨SequenceNumber.of 1, OrderId.of 20, .buy, .limit, Quantity.of 7,
      some (Price.of 101)⟩, 48⟩,
    .process,
    .receive ⟨1, .replace ⟨SequenceNumber.of 3, OrderId.of 11, Quantity.of 2, Price.of 101⟩, 40⟩,
    .process, .process]

theorem twoSessions_exact :
    (run none none twoSessions).service.outbound.map OutboundMessage.sessionId =
      [1, 1, 2, 1, 2, 1, 2, 1] ∧
    (run none none twoSessions).SessionsExact :=
  ⟨by decide +kernel, sessions_exact none none twoSessions (by decide +kernel)⟩

end EngineRun

end LowLatencyExchange
