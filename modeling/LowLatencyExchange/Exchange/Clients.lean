import LowLatencyExchange.Benchmark.Client
import LowLatencyExchange.Exchange.Holdings
import LowLatencyExchange.Exchange.Quiescence
import Mathlib.Tactic

/-!
# Clients that read their sockets

What a client makes of the bytes on its socket: it takes frames off them as the client of the
gateway benchmark does, decodes their payloads and follows its orders. When nothing is left to
send to it, it knows what it has on the book.
-/
namespace LowLatencyExchange

open Protocol MatchingEngineService TcpSession

/-- The frames in front of a byte string, at most `fuel` of them. -/
def readFrames : Nat → List UInt8 → List (List UInt8)
  | 0, _ => []
  | fuel + 1, bytes =>
    match Benchmark.readFrame bytes with
    | none => []
    | some (_, rest) => bytes.take (bytes.length - rest.length) :: readFrames fuel rest

/-- The event in a frame. A payload that is not decoded tells nothing. -/
def frameContent (frame : List UInt8) : OutboundPayload :=
  let payload := frame.drop kHeaderSize
  match frameType frame with
  | some .orderAccepted | some .replaceAccepted =>
    match decodeOrderAccepted payload ⟨SequenceNumber.of 1, OrderId.of 1, 0⟩ with
    | (none, event) => .orderAccepted event
    | _ => .monostate
  | some .execution =>
    match decodeExecution payload
      ⟨SequenceNumber.of 1, OrderId.of 1, OrderId.of 1, Price.of 1, Quantity.of 1⟩ with
    | (none, event) => .execution event
    | _ => .monostate
  | some .cancelAccepted =>
    match decodeCancelAccepted payload ⟨SequenceNumber.of 1, OrderId.of 1, Quantity.of 1⟩ with
    | (none, event) => .cancelAccepted event
    | _ => .monostate
  | _ => .monostate

/-- What a client knows that has got these bytes. -/
def Holdings.ofBytes (bytes : List UInt8) : Holdings :=
  (readFrames bytes.length bytes).foldl (fun h frame => h.receive (frameContent frame)) Holdings.empty

theorem readFrames_framed {frames : List (List UInt8)} (h : ∀ f ∈ frames, ∃ msg, Framed msg f)
    {fuel : Nat} (hfuel : frames.length ≤ fuel) : readFrames fuel frames.flatten = frames := by
  induction frames generalizing fuel with
  | nil => cases fuel <;> rfl
  | cons f frames ih =>
    obtain ⟨⟨msg, hf⟩, hframes⟩ := List.forall_mem_cons.mp h
    obtain ⟨fuel, rfl⟩ : ∃ n, fuel = n + 1 := ⟨fuel - 1, by simp at hfuel; omega⟩
    obtain ⟨header, hread, -⟩ := Benchmark.readFrame_framed hf frames.flatten
    have htake : (f ++ frames.flatten).length - frames.flatten.length = f.length := by simp
    rw [List.flatten_cons, readFrames, hread]
    dsimp only
    rw [htake, List.take_left, ih hframes (by simpa using hfuel)]

theorem readFrames_length {frames : List (List UInt8)} (h : ∀ f ∈ frames, ∃ msg, Framed msg f) :
    readFrames frames.flatten.length frames.flatten = frames := by
  apply readFrames_framed h
  induction frames with
  | nil => exact le_rfl
  | cons f frames ih =>
    obtain ⟨⟨msg, hf⟩, hframes⟩ := List.forall_mem_cons.mp h
    have hlength := ih hframes
    have hpos := List.length_pos_iff.mpr hf.nonempty
    rw [List.flatten_cons, List.length_cons, List.length_append]
    omega

/-- A client that decodes a frame follows the message in it. -/
theorem receive_frameContent {msg : OutboundMessage} {frame : List UInt8} (h : Framed msg frame)
    (holdings : Holdings) : holdings.receive (frameContent frame) = holdings.receive msg.payload := by
  have htype := frameType_of_framed h
  have hdecodes := h.payload
  unfold frameContent
  rw [htype]
  obtain ⟨sessionId, type, flags, payload⟩ := msg
  cases type with
  | orderAccepted =>
    obtain ⟨event, rfl, hevent⟩ := hdecodes
    simp only [hevent]
  | replaceAccepted =>
    obtain ⟨event, rfl, hevent⟩ := hdecodes
    simp only [hevent]
  | execution =>
    obtain ⟨event, rfl, hevent⟩ := hdecodes
    simp only [hevent]
  | cancelAccepted =>
    obtain ⟨event, rfl, hevent⟩ := hdecodes
    simp only [hevent]
  | orderRejected | cancelRejected | replaceRejected | protocolError =>
    obtain ⟨event, rfl, -⟩ := hdecodes
    rfl
  | newOrder | cancelOrder | replaceOrder => exact hdecodes.elim

/-! ## From the socket to the book -/

theorem foldl_receive_serialized {msgs : List OutboundMessage} (h : ∀ msg ∈ msgs, Sendable msg)
    (holdings : Holdings) :
    (msgs.map serializeOutbound).foldl (fun h frame => h.receive (frameContent frame)) holdings =
      holdings.receiveAll msgs := by
  induction msgs generalizing holdings with
  | nil => rfl
  | cons msg msgs ih =>
    obtain ⟨hmsg, hmsgs⟩ := List.forall_mem_cons.mp h
    rw [List.map_cons, List.foldl_cons, receive_frameContent (serializeOutbound_framed hmsg),
      ih hmsgs]
    rfl

/-- Errors of the session do not change what a client knows. -/
theorem foldl_receive_errors {frames : List QueuedFrame}
    (h : ∀ f ∈ frames, f.fatal = true → IsErrorFrame f) (holdings : Holdings) :
    (frames.map QueuedFrame.bytes).foldl (fun h frame => h.receive (frameContent frame)) holdings =
      ((frames.filter fun f => !f.fatal).map QueuedFrame.bytes).foldl
        (fun h frame => h.receive (frameContent frame)) holdings := by
  induction frames generalizing holdings with
  | nil => rfl
  | cons f frames ih =>
    obtain ⟨hf, hframes⟩ := List.forall_mem_cons.mp h
    rw [List.map_cons, List.foldl_cons, ih hframes]
    cases hfatal : f.fatal with
    | false => rw [List.filter_cons_of_pos (by simp [hfatal]), List.map_cons, List.foldl_cons]
    | true =>
      obtain ⟨code, type, rfl⟩ := hf hfatal
      rw [List.filter_cons_of_neg (by simp), receive_frameContent (makeErrorFrame_framed code type)]
      rfl

namespace GatewayRun

theorem AllSent.framed {processed : List InboundMessage} {s : SessionRun}
    (h : AllSent processed s) :
    ∀ frame ∈ s.connection.written.map QueuedFrame.bytes, ∃ msg, Framed msg frame := by
  intro frame hframe
  obtain ⟨f, hf, rfl⟩ := List.mem_map.mp hframe
  cases hfatal : f.fatal with
  | true =>
    obtain ⟨code, type, rfl⟩ := h.errors f hf hfatal
    exact ⟨_, makeErrorFrame_framed code type⟩
  | false =>
    have hmem : f.bytes ∈ (s.connection.written.filter fun f => !f.fatal).map QueuedFrame.bytes :=
      List.mem_map_of_mem (List.mem_filter.mpr ⟨hf, by simp [hfatal]⟩)
    rw [h.frames] at hmem
    obtain ⟨msg, hmsg, hbytes⟩ := List.mem_map.mp hmem
    exact ⟨msg, hbytes ▸ serializeOutbound_framed (h.sendable msg hmsg)⟩

/-- The bytes tell a client what the messages to it tell. -/
theorem AllSent.ofBytes {processed : List InboundMessage} {s : SessionRun}
    (h : AllSent processed s) :
    Holdings.ofBytes (s.connection.written.flatMap QueuedFrame.bytes) =
      knownHoldings s.connection.sessionId processed := by
  rw [Holdings.ofBytes, List.flatMap_def, readFrames_length h.framed, foldl_receive_errors h.errors,
    h.frames, foldl_receive_serialized h.sendable, knownHoldings]

theorem Attended.knows {marketDataFeed : Option (MarketDataFeed × MarketDataQueue)}
    {eventCaptureFeed : Option (EventCaptureFeed × EventCaptureQueue)} {r : GatewayRun}
    (h : Attended marketDataFeed eventCaptureFeed r) :
    KnowsInv r.exchange.engine.service r.exchange.engine.processed := by
  obtain ⟨events, hevents⟩ := h.reached
  rw [hevents]
  exact Transducer.run_invariant
    (fun e : Exchange => KnowsInv e.engine.service e.engine.processed)
    (fun _ event h => Exchange.step_rule knowsInv_rule h event)
    (knowsInv_rule.start marketDataFeed eventCaptureFeed) events

/-- When the clients have become quiet and the rest of the work is done, each client that is
still registered knows from the bytes on its socket alone what the book holds of the orders that
rest in its name, and of the orders that no other client had a command accepted for. -/
theorem clients_know (marketDataFeed : Option (MarketDataFeed × MarketDataQueue))
    (eventCaptureFeed : Option (EventCaptureFeed × EventCaptureQueue))
    (events : List GatewayEvent) {rounds : List (List QuietEvent)}
    (hserving : (run marketDataFeed eventCaptureFeed events).main.signalled = false)
    (hconnections :
      (run marketDataFeed eventCaptureFeed events).exchange.sessions.length < 2 ^ 64)
    (hfair : ∀ round ∈ rounds, Transducer.FairRound id
      (quietTurns (run marketDataFeed eventCaptureFeed events).exchange.sessions.length) round)
    (hrounds : (run marketDataFeed eventCaptureFeed events).workLeft < rounds.length) :
    let engine := (run marketDataFeed eventCaptureFeed
      (events ++ rounds.flatten.map QuietEvent.event)).exchange.engine
    let sessions := (run marketDataFeed eventCaptureFeed
      (events ++ rounds.flatten.map QuietEvent.event)).exchange.sessions
    ∀ s ∈ sessions, s.connection.registered = true →
      let known := Holdings.ofBytes (s.connection.written.flatMap QueuedFrame.bytes)
      (∀ id, engine.service.orderSessions.lookup id = some s.connection.sessionId →
        known id = engine.service.book.holdings id) ∧
      ∀ id, SoleUser s.connection.sessionId id engine.processed →
        known id = engine.service.book.holdings id := by
  obtain ⟨⟨hattended, hlength⟩, hsettled, -⟩ :=
    quiet_settles marketDataFeed eventCaptureFeed events hserving hconnections hfair hrounds
  rw [← hlength] at hconnections
  generalize run marketDataFeed eventCaptureFeed (events ++ _) = after at *
  obtain ⟨polled, hinv⟩ := hattended.exchangeInv hconnections
  have hknows := hattended.knows
  intro engine sessions s hs hregistered
  have hsent := hsettled.allSent hinv hconnections hs (hattended.writes s hs) hregistered
  rw [hsent.ofBytes]
  refine ⟨fun id hid => ?_, fun id hsole => hknows.sole _ id hsole⟩
  have hlookup := hknows.sessions.sessions id
  rw [hid] at hlookup
  split_ifs at hlookup with hrests
  exact hknows.resting _ id hrests hlookup.symm

/-- One client has sent a sale of five units, and another one buys two of them. -/
def tradeSent : List GatewayEvent :=
  [.accept (orderStream
      ⟨SequenceNumber.of 1, OrderId.of 10, .sell, .limit, Quantity.of 5, some (Price.of 100)⟩),
    .accept (orderStream
      ⟨SequenceNumber.of 1, OrderId.of 20, .buy, .limit, Quantity.of 2, some (Price.of 100)⟩),
    .read 0 false, .read 0 false, .read 1 false, .read 1 false]

def tradeRounds : List (List QuietEvent) :=
  List.replicate 40 [.write 0, .write 1, .drain, .engine]

theorem tradeSent_known :
    let after := run none none (tradeSent ++ tradeRounds.flatten.map QuietEvent.event)
    after.exchange.engine.service.book.holdings (OrderId.of 10) = some (Quantity.of 3) ∧
    ∀ s ∈ after.exchange.sessions, s.connection.registered = true →
      ∀ id, after.exchange.engine.service.orderSessions.lookup id = some s.connection.sessionId →
        Holdings.ofBytes (s.connection.written.flatMap QueuedFrame.bytes) id =
          after.exchange.engine.service.book.holdings id := by
  have hfair : ∀ round ∈ tradeRounds, Transducer.FairRound id (quietTurns 2) round := by
    intro round hround turn hturn
    rw [List.eq_of_mem_replicate hround]
    refine ⟨turn, ?_, rfl⟩
    cases turn with
    | engine => decide
    | drain => decide
    | write k =>
      have hk : k < 2 := hturn k rfl
      interval_cases k <;> decide
  have htwo : (run none none tradeSent).exchange.sessions.length = 2 := by decide +kernel
  have hknow := clients_know none none tradeSent (by decide +kernel) (by decide +kernel)
    (htwo ▸ hfair) (by decide +kernel)
  exact ⟨by decide +kernel, fun s hs hregistered => (hknow s hs hregistered).1⟩

end GatewayRun

end LowLatencyExchange
