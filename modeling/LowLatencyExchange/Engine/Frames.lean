import LowLatencyExchange.Engine.Responses
import Mathlib.Tactic

/-!
# The frames of the engine's messages

Every message that the engine pushes is serialized to a frame that a receiver decodes to the
same event, and the bytes it counts are the bytes of these frames.
-/
namespace LowLatencyExchange

open Protocol

namespace MatchingEngineService

theorem executionReports_sendable {sessionId : UInt64} {sequence : SequenceNumber}
    {sessions : OrderId → Option UInt64} {exec : Execution} {msg : OutboundMessage}
    (h : msg ∈ executionReports sessionId sequence sessions exec) : Sendable msg := by
  have hmore : flagsReservedBitsClear kFlagMore = true := by decide
  have hzero : flagsReservedBitsClear 0 = true := by decide
  unfold executionReports at h
  obtain rfl | h := List.mem_cons.mp h
  · exact ⟨List.mem_singleton.mpr rfl, hmore⟩
  · split_ifs at h
    · obtain rfl := List.mem_singleton.mp h
      exact ⟨List.mem_singleton.mpr rfl, hzero⟩
    · cases h

/-- The type of a terminal message fits its payload: an accepted cancel has a quantity. -/
theorem terminal_sendable {book : OrderBook} (inv : book.Inv) (sessionId : UInt64) (c : Command) :
    Sendable (terminal sessionId book c) := by
  have hzero : flagsReservedBitsClear 0 = true := by decide
  have heffect := inv.step_effect c
  cases c with
  | submit order =>
    simp only [terminal]
    cases (book.submit order).2.rejection with
    | some reason => exact ⟨by simp [payloadTypes], hzero⟩
    | none => exact ⟨by simp [payloadTypes], hzero⟩
  | cancel order =>
    simp only [terminal, OrderBook.step] at heffect ⊢
    rcases hout : book.cancel order with ⟨after, orderId, cancelledQuantity, rejection⟩
    rw [hout] at heffect
    cases rejection with
    | some reason => exact ⟨by simp [payloadTypes], hzero⟩
    | none =>
      obtain ⟨-, hsome, hreported⟩ := heffect.accepted rfl
      obtain ⟨active, hactive⟩ := Option.isSome_iff_exists.mp hsome
      rw [hactive, Option.map_some] at hreported
      obtain rfl : cancelledQuantity = _ := hreported
      exact ⟨by simp [payloadTypes], hzero⟩
  | replace order =>
    simp only [terminal]
    cases (book.replace order).2.rejection with
    | some reason => exact ⟨by simp [payloadTypes], hzero⟩
    | none => exact ⟨by simp [payloadTypes], hzero⟩

theorem responses_sendable {book : OrderBook} (inv : book.Inv) {sessionId : UInt64}
    {sessions : OrderId → Option UInt64} {c : Command} {msg : OutboundMessage}
    (h : msg ∈ responses sessionId book sessions c) : Sendable msg := by
  obtain h | h := List.mem_append.mp h
  · obtain ⟨exec, -, h⟩ := List.mem_flatMap.mp h
    exact executionReports_sendable h
  · obtain rfl := List.mem_singleton.mp h
    exact terminal_sendable inv sessionId c

/-- The messages fit their types, and their bytes are counted. -/
structure FramesInv (s : MatchingEngineService) : Prop where
  book : s.book.Inv
  sendable : ∀ msg ∈ s.outbound, Sendable msg
  outboundBytes : s.metrics.outboundBytes =
    UInt64.ofNat (s.outbound.map OutboundMessage.frameSize).sum

theorem framesInv_rule : EngineRun.CallRule fun s _ => FramesInv s where
  start _ _ := ⟨OrderBook.inv_empty, fun _ h => absurd h List.not_mem_nil, rfl⟩
  inbound h _ := ⟨h.book, h.sendable, h.outboundBytes⟩
  occupancy h := ⟨h.book, h.sendable, h.outboundBytes⟩
  handle {s _} h message := by
    have hprocessed := handleCommand_processed h.book message
    refine ⟨hprocessed.book ▸ (OrderBook.step_spec h.book _).1, ?_, ?_⟩
    · intro msg hmsg
      rw [hprocessed.outbound] at hmsg
      obtain hmsg | hmsg := List.mem_append.mp hmsg
      · exact h.sendable msg hmsg
      · exact responses_sendable h.book hmsg
    · rw [hprocessed.outboundBytes, hprocessed.outbound, h.outboundBytes, List.map_append,
        List.sum_append, UInt64.ofNat_add]
  finish h _ _ := ⟨h.book, h.sendable,
    (recordCommandResult_outboundBytes _ _ _).trans h.outboundBytes⟩

end MatchingEngineService

theorem Framed.length_eq {msg : OutboundMessage} {frame : List UInt8} (h : Framed msg frame) :
    frame.length = msg.frameSize := by
  obtain ⟨size, hexpected, hlength⟩ := h.length
  obtain ⟨size', hexpected', hsize⟩ := expectedPayloadLength_value msg.type
  rw [hexpected, Option.some.injEq] at hexpected'
  rw [hlength, OutboundMessage.frameSize, hexpected', hsize]

/-- In every run, each message pushed is read back from its frame, and the byte counter is the
total length of the frames. So is each error frame read back. -/
theorem EngineRun.outbound_framed (marketDataFeed : Option (MarketDataFeed × MarketDataQueue))
    (eventCaptureFeed : Option (EventCaptureFeed × EventCaptureQueue))
    (events : List EngineEvent) :
    (∀ msg ∈ (run marketDataFeed eventCaptureFeed events).service.outbound,
      Framed msg (serializeOutbound msg)) ∧
    (run marketDataFeed eventCaptureFeed events).service.metrics.outboundBytes.toNat =
      ((run marketDataFeed eventCaptureFeed events).service.outbound.map
        fun msg => (serializeOutbound msg).length).sum % 2 ^ 64 ∧
    ∀ code offendingType,
      Framed ⟨0, .protocolError, 0, .protocolError ⟨code, offendingType⟩⟩
        (makeErrorFrame code offendingType) := by
  have h := MatchingEngineService.framesInv_rule.rule.run marketDataFeed eventCaptureFeed events
  have hframed : ∀ msg ∈ (run marketDataFeed eventCaptureFeed events).service.outbound,
      Framed msg (serializeOutbound msg) :=
    fun msg hmsg => serializeOutbound_framed (h.sendable msg hmsg)
  refine ⟨hframed, ?_, makeErrorFrame_framed⟩
  rw [h.outboundBytes, UInt64.toNat_ofNat', List.map_congr_left fun msg hmsg =>
    (hframed msg hmsg).length_eq]

end LowLatencyExchange
