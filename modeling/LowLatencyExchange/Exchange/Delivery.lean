import LowLatencyExchange.Exchange.Invariant
import Mathlib.Tactic

/-!
# What reaches a client

Whatever order the handlers, the engine and the polls run in, and wherever connections break,
a session is sent the messages addressed to it up to the point where it is taken out of the
session map. So the terminal responses on its socket are those of its first commands.
-/
namespace LowLatencyExchange

open Protocol MatchingEngineService TcpSession

/-- What is true of a session in every state of the exchange. -/
structure SessionServed (e : Exchange) (r : SessionRun) : Prop where
  outstanding : r.outstanding ≤ 1
  /-- Frames are written in the order queued. -/
  written : r.queued = r.connection.written ++ r.connection.writeQueue
  /-- The frames are those of the first messages addressed to the session, and its own errors. -/
  addressed : ∃ sent,
    sent <+: e.engine.service.outbound.filter
      (fun msg => msg.sessionId = r.connection.sessionId) ∧
    (r.queued.filter fun f => !f.fatal).map QueuedFrame.bytes = sent.map serializeOutbound
  errors : ∀ f ∈ r.queued, f.fatal = true → IsErrorFrame f
  /-- However many of the frames were put on the socket, the terminal responses among them are
  those of the first commands that the session pushed. -/
  terminal : ∀ frames, frames <+: r.queued → ∃ own : List Served,
    own <+: (served e.engine.processed).filter
      (fun x => x.message.sessionId = r.connection.sessionId) ∧
    own.map Served.message <+: r.connection.pushed ∧
    (frames.map QueuedFrame.bytes).filter isTerminalFrame =
      own.map (fun x => serializeOutbound x.terminal) ∧
    ∀ x ∈ own, x.GroupEnds ∧ Framed x.terminal (serializeOutbound x.terminal)

namespace SessionSound

variable {e : Exchange} {polled : List OutboundMessage} {k : Nat} {r : SessionRun}

/-- Errors of the session are no terminal responses. -/
theorem filter_queued (h : Delivered polled r) :
    (r.queued.map QueuedFrame.bytes).filter isTerminalFrame =
      ((r.queued.filter fun f => !f.fatal).map QueuedFrame.bytes).filter isTerminalFrame := by
  rw [List.filter_map, List.filter_map, List.filter_filter]
  congr 1
  apply List.filter_congr
  intro f hf
  cases hfatal : f.fatal with
  | false => simp
  | true => simp [isTerminalFrame_of_error (h.errors f hf hfatal)]

theorem filter_serialized {sent : List OutboundMessage} (h : ∀ msg ∈ sent, Sendable msg) :
    (sent.map serializeOutbound).filter isTerminalFrame =
      (sent.filter fun msg => msg.type ∈ terminalTypes).map serializeOutbound := by
  rw [List.filter_map]
  congr 1
  apply List.filter_congr
  intro msg hmsg
  exact isTerminalFrame_serializeOutbound (h msg hmsg)

theorem served (h : SessionSound polled e.received k r) (hinv : ExchangeInv e polled)
    (hlength : e.sessions.length < 2 ^ 64) : SessionServed e r := by
  obtain ⟨sent, hsent, -, hframes⟩ := h.delivered.sent
  have haddressed : sent <+: e.engine.service.outbound.filter
      (fun msg => msg.sessionId = r.connection.sessionId) := by
    refine hsent.trans (List.IsPrefix.filter _ ?_)
    rw [hinv.outbound, List.append_assoc]
    exact List.prefix_append _ _
  have hsendable : ∀ msg ∈ sent, Sendable msg := by
    intro msg hmsg
    exact hinv.frames.sendable msg (List.mem_of_mem_filter (haddressed.subset hmsg))
  refine ⟨?_, h.sending.queued, ⟨sent, haddressed, hframes⟩, h.delivered.errors, ?_⟩
  · rw [h.sending.outstanding]
    exact Bool.toNat_le _
  intro frames hfirst
  -- all terminal responses of the session, of which the queue has the first ones
  have hterminals : (frames.map QueuedFrame.bytes).filter isTerminalFrame <+:
      ((LowLatencyExchange.served e.engine.processed).filter
        fun x => x.message.sessionId = r.connection.sessionId).map
          fun x => serializeOutbound x.terminal := by
    have hqueued := (hfirst.map QueuedFrame.bytes).filter isTerminalFrame
    rw [filter_queued h.delivered, hframes, filter_serialized hsendable] at hqueued
    have hreplies : e.engine.service.outbound.filter
        (fun msg => msg.sessionId = r.connection.sessionId) =
          (LowLatencyExchange.served e.engine.processed).flatMap
            (repliesTo r.connection.sessionId) :=
      hinv.groups.outbound (hinv.processed_ne_zero hlength) _
    have hall := haddressed.filter (fun msg => msg.type ∈ terminalTypes)
    rw [hreplies, filter_served] at hall
    have hmapped := hall.map serializeOutbound
    rw [List.map_map] at hmapped
    exact hqueued.trans hmapped
  have hpushed : ((LowLatencyExchange.served e.engine.processed).filter
      fun x => x.message.sessionId = r.connection.sessionId).map Served.message <+:
        r.connection.pushed := by
    rw [← h.pushed, ← h.sessionId, Exchange.received, List.filter_append]
    conv => rhs; lhs; rw [← map_message_served e.engine.processed, List.filter_map]
    exact List.prefix_append _ _
  rw [List.prefix_iff_eq_take, ← List.map_take] at hterminals
  refine ⟨_, List.take_prefix _ _, ?_, hterminals, ?_⟩
  · exact ((List.take_prefix _ _).map Served.message).trans hpushed
  · intro x _
    exact ⟨x.groupEnds, serializeOutbound_framed
      (terminal_sendable (OrderBook.run_inv _) _ _)⟩

end SessionSound

/-- In every run with fewer than `2 ^ 64` connections, no session id is assigned twice and every
session is served: one write at a time, in the order queued, of the messages addressed to it
alone, with the terminal responses of its first commands in order. -/
theorem Exchange.sessions_served (marketDataFeed : Option (MarketDataFeed × MarketDataQueue))
    (eventCaptureFeed : Option (EventCaptureFeed × EventCaptureQueue))
    (events : List ExchangeEvent) (haccepts : events.countP ExchangeEvent.isAccept < 2 ^ 64) :
    ((run marketDataFeed eventCaptureFeed events).sessions.map
      fun r => r.connection.sessionId).Nodup ∧
    ∀ r ∈ (run marketDataFeed eventCaptureFeed events).sessions,
      SessionServed (run marketDataFeed eventCaptureFeed events) r := by
  have hlength := length_run marketDataFeed eventCaptureFeed events
  rw [← hlength] at haccepts
  obtain ⟨polled, hinv⟩ := run_inv marketDataFeed eventCaptureFeed events haccepts
  constructor
  · rw [List.Nodup, List.pairwise_map, List.pairwise_iff_getElem]
    intro j k hj hk hjk heq
    rw [(hinv.sessions j _ (List.getElem?_eq_getElem hj)).sessionId,
      (hinv.sessions k _ (List.getElem?_eq_getElem hk)).sessionId] at heq
    have := sessionId_inj hj hk haccepts heq
    omega
  · intro r hr
    obtain ⟨k, hk⟩ := List.mem_iff_getElem?.mp hr
    exact (hinv.sessions k r hk).served hinv haccepts

/-- The bytes of one new order. -/
def orderStream (order : NewOrder) : List UInt8 :=
  LittleEndian.record (headerFields ⟨kMagic, kVersion, MessageType.newOrder.value, 0, 40⟩) ++
    LittleEndian.record (newOrderFields order)

/-- Two clients trade, and the first one is unregistered before its fill is polled. -/
def brokenTrade : List ExchangeEvent :=
  [.accept (orderStream
      ⟨SequenceNumber.of 1, OrderId.of 10, .sell, .limit, Quantity.of 5, some (Price.of 100)⟩),
    .accept (orderStream
      ⟨SequenceNumber.of 7, OrderId.of 20, .buy, .limit, Quantity.of 5, some (Price.of 100)⟩),
    .read 0 false, .read 0 false, .read 1 false, .read 1 false,
    .process, .process, .push, .poll, .process, .process, .process, .push, .push, .write 0 false,
    .unregister 1, .push, .process, .poll, .poll, .poll, .write 1 false, .write 1 false]

theorem brokenTrade_served :
    (Exchange.run none none brokenTrade).sessions.map
      (fun r => r.connection.written.map fun f => frameType f.bytes) =
        [[some .orderAccepted], [some .execution, some .orderAccepted]] ∧
    ∀ r ∈ (Exchange.run none none brokenTrade).sessions,
      SessionServed (Exchange.run none none brokenTrade) r :=
  ⟨by decide +kernel, (Exchange.sessions_served none none brokenTrade (by decide +kernel)).2⟩

end LowLatencyExchange
