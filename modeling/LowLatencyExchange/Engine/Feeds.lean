import LowLatencyExchange.Engine.Accounting
import LowLatencyExchange.EventLog.Truncation
import LowLatencyExchange.MarketData.Delivery
import Mathlib.Tactic

/-!
# The feeds of the engine

What the engine has handed to its two feeds, and what the recorder and the publisher have made of
it. A capture that finds its queue full is dropped and a write can fail, so that the log may hold
less than what was accepted. The market data of one processed message is one publish call.
-/
namespace LowLatencyExchange

open EventLog MarketData MatchingEngineService

/-! ## Capture -/

/-- The capture feed, its queue and the log, when `captured` of the `accepted` commands have got
into the queue. -/
structure CaptureInv (accepted captured : List Command) (feed : EventCaptureFeed)
    (queue : EventCaptureQueue) (writer : EventLogWriter) : Prop where
  sublist : captured.Sublist accepted
  capturedCommands : feed.capturedCommands = UInt64.ofNat captured.length
  droppedCommands : feed.droppedCommands = UInt64.ofNat (accepted.length - captured.length)
  occupancy : queue.size ≤ feed.maxQueueOccupancy
  bounded : feed.maxQueueOccupancy ≤ 4096
  full : captured.length < accepted.length → feed.maxQueueOccupancy = 4096
  /-- A write that fails leaves a part of what was to be written, and is the last one. -/
  file : writer.file <+: captured.flatMap commandRecord
  good : writer.good = true →
    ∃ logged, captured = logged ++ queue.items ∧ writer.file = logged.flatMap commandRecord

namespace CaptureInv

variable {accepted captured : List Command} {feed : EventCaptureFeed} {queue : EventCaptureQueue}
  {writer : EventLogWriter}

theorem start : CaptureInv [] [] EventCaptureFeed.new BoundedFifo.empty EventLogWriter.new where
  sublist := List.Sublist.refl []
  capturedCommands := rfl
  droppedCommands := rfl
  occupancy := Nat.le_refl 0
  bounded := Nat.zero_le _
  full h := absurd h (Nat.lt_irrefl 0)
  file := List.prefix_refl []
  good _ := ⟨[], rfl, rfl⟩

/-- The counter is the number of dropped commands before it wraps. -/
theorem droppedCommands_toNat (h : CaptureInv accepted captured feed queue writer)
    (hlt : accepted.length < 2 ^ 64) :
    feed.droppedCommands.toNat = accepted.length - captured.length := by
  rw [h.droppedCommands, UInt64.toNat_ofNat_of_lt' (by rw [UInt64.size]; omega)]

/-- Nothing was dropped: all accepted commands were captured. -/
theorem complete (h : CaptureInv accepted captured feed queue writer)
    (hlt : accepted.length < 2 ^ 64) (hdropped : feed.droppedCommands = 0) :
    captured = accepted := by
  have hcount := h.droppedCommands_toNat hlt
  have hle := h.sublist.length_le
  rw [hdropped, UInt64.toNat_zero] at hcount
  exact h.sublist.eq_of_length (by omega)

theorem recordQueueOccupancy_eq (feed : EventCaptureFeed) (queue : EventCaptureQueue) :
    feed.recordQueueOccupancy queue =
      { feed with maxQueueOccupancy := max feed.maxQueueOccupancy queue.size } := by
  unfold EventCaptureFeed.recordQueueOccupancy
  split_ifs with h
  · rw [max_eq_right h.le]
  · rw [max_eq_left (by omega)]

/-- The counters move before the occupancy is looked at. -/
theorem capture_eq (feed : EventCaptureFeed) (queue : EventCaptureQueue) (command : Command) :
    feed.capture queue command =
      match queue.tryPush command with
      | none =>
        ({ feed with
            droppedCommands := feed.droppedCommands + 1
            maxQueueOccupancy := max feed.maxQueueOccupancy queue.size }, queue)
      | some queue =>
        ({ feed with
            capturedCommands := feed.capturedCommands + 1
            maxQueueOccupancy := max feed.maxQueueOccupancy queue.size }, queue) := by
  unfold EventCaptureFeed.capture
  cases queue.tryPush command <;> simp only [recordQueueOccupancy_eq]

theorem capture (h : CaptureInv accepted captured feed queue writer) (command : Command) :
    ∃ captured', CaptureInv (accepted ++ [command]) captured' (feed.capture queue command).1
      (feed.capture queue command).2 writer := by
  have hbounded := h.bounded
  have hle := h.sublist.length_le
  have hlength : (accepted ++ [command]).length = accepted.length + 1 := List.length_append
  rw [capture_eq]
  cases hpush : queue.tryPush command with
  | none =>
    have hfull := BoundedFifo.tryPush_eq_none.mp hpush
    refine ⟨captured, ?_⟩
    dsimp only
    refine { h with
      sublist := h.sublist.trans (List.sublist_append_left _ _)
      droppedCommands := ?_
      occupancy := le_max_right _ _
      bounded := by dsimp only; omega
      full := fun _ => by dsimp only; omega }
    rw [hlength, Nat.succ_sub hle, h.droppedCommands]
    exact (UInt64.ofNat_add _ 1).symm
  | some queue' =>
    have hitems := BoundedFifo.items_of_tryPush hpush
    have hsize := queue'.bounded
    have hlength' : (captured ++ [command]).length = captured.length + 1 := List.length_append
    refine ⟨captured ++ [command], ?_⟩
    dsimp only
    refine ⟨h.sublist.append (List.Sublist.refl _), ?_, ?_, le_max_right _ _, ?_, ?_, ?_, ?_⟩
    · rw [hlength', h.capturedCommands]
      exact (UInt64.ofNat_add _ 1).symm
    · rw [hlength, hlength', Nat.add_sub_add_right]
      exact h.droppedCommands
    · simp only [BoundedFifo.size]
      omega
    · intro hlt
      have hfull := h.full (by omega)
      simp only [BoundedFifo.size]
      omega
    · exact h.file.trans ((List.prefix_append captured [command]).flatMap commandRecord)
    · intro hgood
      obtain ⟨logged, hsplit, hfile⟩ := h.good hgood
      exact ⟨logged, by rw [hsplit, hitems, List.append_assoc], hfile⟩

/-- An append to a stream in a bad state does nothing, and one that fails leaves a part of the
record. -/
theorem append_spec (writer : EventLogWriter) (command : Command) (failure : Option Nat) :
    (writer.good = false ∧ (writer.append command failure).1 = writer) ∨
    (writer.good = true ∧ (writer.append command failure).1.good = false ∧
      (writer.append command failure).1.file <+: writer.file ++ commandRecord command) ∨
    (writer.good = true ∧ (writer.append command failure).1.good = true ∧
      (writer.append command failure).1.file = writer.file ++ commandRecord command) := by
  unfold EventLogWriter.append
  rw [encodeCommand_eq]
  cases hgood : writer.good with
  | false => exact .inl ⟨rfl, rfl⟩
  | true =>
    cases failure with
    | some kept =>
      refine .inr (.inl ⟨rfl, rfl, ?_⟩)
      exact (List.prefix_append_right_inj _).mpr (List.take_prefix kept (commandRecord command))
    | none => exact .inr (.inr ⟨rfl, by simp, rfl⟩)

/-- `append` returns the state of the stream. -/
theorem append_result (writer : EventLogWriter) (command : Command) (failure : Option Nat) :
    (writer.append command failure).2 = (writer.append command failure).1.good := by
  unfold EventLogWriter.append
  rw [encodeCommand_eq]
  cases hgood : writer.good with
  | false => simp [hgood]
  | true => cases failure <;> simp

/-- A recorder that does not get a record written has found the queue empty, or the stream is in
a bad state. -/
theorem drain_result {queue : EventCaptureQueue} {failure : Option Nat}
    (h : (drainEventCaptureOne queue writer failure).2.2 ≠ some true) :
    (drainEventCaptureOne queue writer failure).1.items = [] ∨
      (drainEventCaptureOne queue writer failure).2.1.good = false := by
  unfold drainEventCaptureOne at h ⊢
  cases hpop : queue.tryPop with
  | none => exact .inl (BoundedFifo.items_of_tryPop_none hpop)
  | some popped =>
    rw [hpop] at h
    refine .inr ?_
    simpa [append_result] using h

/-- A stream in a bad state stays in it. -/
theorem good_of_drain {queue : EventCaptureQueue} {failure : Option Nat}
    (h : (drainEventCaptureOne queue writer failure).2.1.good = true) : writer.good = true := by
  unfold drainEventCaptureOne at h
  cases hpop : queue.tryPop with
  | none =>
    rw [hpop] at h
    exact h
  | some popped =>
    rw [hpop] at h
    rcases append_spec writer popped.1 failure with ⟨hbad, hsame⟩ | ⟨hgood, -⟩ | ⟨hgood, -⟩
    · dsimp only at h
      rwa [hsame] at h
    · exact hgood
    · exact hgood

theorem good_of_flush {failure : Option Nat} (h : (writer.flush failure).1.good = true) :
    writer.good = true := by
  unfold EventLogWriter.flush at h
  split_ifs at h with hbad
  · exact h
  · simpa using hbad

theorem drain (h : CaptureInv accepted captured feed queue writer) (failure : Option Nat) :
    CaptureInv accepted captured feed (drainEventCaptureOne queue writer failure).1
      (drainEventCaptureOne queue writer failure).2.1 := by
  unfold drainEventCaptureOne
  cases hpop : queue.tryPop with
  | none => exact h
  | some popped =>
    obtain ⟨command, queue'⟩ := popped
    have hitems := BoundedFifo.items_of_tryPop hpop
    have hoccupancy := h.occupancy
    rw [BoundedFifo.size, hitems, List.length_cons] at hoccupancy
    have hsize : queue'.size ≤ feed.maxQueueOccupancy := by
      rw [BoundedFifo.size]
      omega
    dsimp only
    rcases append_spec writer command failure with
      ⟨hbad, hsame⟩ | ⟨hgood, hbad, hfile⟩ | ⟨hgood, -, hfile⟩
    · rw [hsame]
      exact { h with occupancy := hsize, good := fun hgood => by rw [hbad] at hgood; cases hgood }
    · obtain ⟨logged, hsplit, hlogged⟩ := h.good hgood
      refine { h with
        occupancy := hsize
        file := hfile.trans ?_
        good := fun hgood => by rw [hbad] at hgood; cases hgood }
      rw [hsplit, hitems, hlogged, List.flatMap_append, List.flatMap_cons, ← List.append_assoc]
      exact List.prefix_append _ _
    · obtain ⟨logged, hsplit, hlogged⟩ := h.good hgood
      have hnext : captured = (logged ++ [command]) ++ queue'.items := by
        rw [hsplit, hitems, List.append_assoc, List.singleton_append]
      have hrecords : writer.file ++ commandRecord command =
          (logged ++ [command]).flatMap commandRecord := by
        rw [hlogged, List.flatMap_append, List.flatMap_singleton]
      refine { h with
        occupancy := hsize
        file := ?_
        good := fun _ => ⟨logged ++ [command], hnext, hfile.trans hrecords⟩ }
      rw [hfile, hrecords, hnext]
      exact (List.prefix_append _ queue'.items).flatMap commandRecord

theorem flush (h : CaptureInv accepted captured feed queue writer) (failure : Option Nat) :
    CaptureInv accepted captured feed queue (writer.flush failure).1 := by
  unfold EventLogWriter.flush
  split_ifs
  · exact h
  · cases failure with
    | none => exact h
    | some kept =>
      refine { h with file := (List.take_prefix kept _).trans h.file, good := fun hgood => ?_ }
      cases hgood

/-- Whatever part of the log is read, a replay applies the accepted commands that it holds
whole, and tells whether it ends within a record. -/
theorem replay_part {commands : List Command}
    (h : CaptureInv (OrderBook.accepted commands) captured feed queue writer)
    (hlt : (OrderBook.accepted commands).length < 2 ^ 64) (hdropped : feed.droppedCommands = 0)
    {disk : List UInt8} (hdisk : disk <+: writer.file) :
    ∃ k, Whole (OrderBook.accepted commands) disk.length k ∧
      replay disk = (⟨OrderBook.run ((OrderBook.accepted commands).take k), UInt64.ofNat k⟩,
        cutError (disk.length - recordStart (OrderBook.accepted commands) k)) := by
  have hall := (OrderBook.run_accepted commands).2
  have hrecords := hdisk.trans (h.complete hlt hdropped ▸ h.file)
  obtain ⟨k, hwhole, hreplay⟩ := replay_take hall hrecords.length_le
  rw [← List.prefix_iff_eq_take.mp hrecords] at hreplay
  exact ⟨k, hwhole, hreplay⟩

/-- A log that took all writes replays to the book, when the queue is drained. -/
theorem replay_whole {commands : List Command}
    (h : CaptureInv (OrderBook.accepted commands) captured feed queue writer)
    (hlt : (OrderBook.accepted commands).length < 2 ^ 64) (hdropped : feed.droppedCommands = 0)
    (hgood : writer.good = true)
    (hdrained : queue.items = []) :
    replay writer.file =
      (⟨OrderBook.run commands, UInt64.ofNat (OrderBook.accepted commands).length⟩, none) := by
  obtain ⟨hrun, hall⟩ := OrderBook.run_accepted commands
  obtain ⟨logged, hsplit, hfile⟩ := h.good hgood
  rw [hdrained, List.append_nil, h.complete hlt hdropped] at hsplit
  rw [hfile, ← hsplit, replay_records hall, hrun]

end CaptureInv

/-! ## Market data -/

/-- The book after each of the processed messages. -/
def booksAfter (processed : List InboundMessage) : List OrderBook :=
  (List.range processed.length).map fun k =>
    OrderBook.run ((processed.map InboundMessage.command).take (k + 1))

theorem booksAfter_concat (processed : List InboundMessage) (message : InboundMessage) :
    booksAfter (processed ++ [message]) = booksAfter processed ++
      [OrderBook.run ((processed ++ [message]).map InboundMessage.command)] := by
  have hlength : (processed.map InboundMessage.command).length = processed.length :=
    List.length_map _
  rw [booksAfter, List.length_append, List.length_singleton, List.range_succ, List.map_append,
    List.map_singleton, List.map_append, List.map_singleton, booksAfter]
  congr 1
  · refine List.map_congr_left fun k hk => ?_
    have hlt := List.mem_range.mp hk
    rw [List.take_append_of_le_length (by omega)]
  · rw [List.take_of_length_le (by simp)]

/-- The market data feed, its queue and the published book after `processed`, as a run of feed,
queue and subscriber. -/
structure MarketInv (processed : List InboundMessage) (feed : MarketDataFeed)
    (queue : MarketDataQueue) (subscriber : MarketDataBook) (p : Pipeline) : Prop where
  inv : FeedInv 64 p
  feed : p.feed = feed
  queue : p.queue = queue
  subscriber : p.subscriber = subscriber
  books : p.books = booksAfter processed
  dropped : p.feed.droppedEvents = UInt64.ofNat (p.outcomes.countP Option.isNone)
  latest : ∀ event, p.outcomes.getLast? = some (some event) →
    sequenceValue event = p.outcomes.length

namespace MarketInv

variable {processed : List InboundMessage} {feed : MarketDataFeed} {queue : MarketDataQueue}
  {subscriber : MarketDataBook} {p : Pipeline}

theorem start : MarketInv [] (MarketDataFeed.new 64) BoundedFifo.empty MarketDataBook.empty
    (Pipeline.start 64) where
  inv := feedInv_start 64
  feed := rfl
  queue := rfl
  subscriber := rfl
  books := rfl
  dropped := rfl
  latest := by simp [Pipeline.start]

theorem publish (h : MarketInv processed feed queue subscriber p) (message : InboundMessage)
    {book : OrderBook}
    (hbook : book = OrderBook.run ((processed ++ [message]).map InboundMessage.command)) :
    ∃ p', MarketInv (processed ++ [message]) (feed.publish queue book).1
      (feed.publish queue book).2.1 subscriber p' := by
  obtain ⟨inv, rfl, rfl, rfl, hbooks, hdropped, hlatest⟩ := h
  have hnext := inv.next
  have hpos : 0 < p.feed.nextSequence := by omega
  have hstep := publish_step hpos p.queue book
  have hafter : (p.step (.publish book)).books = booksAfter (processed ++ [message]) := by
    rw [booksAfter_concat, ← hbooks, ← hbook]
    rfl
  refine ⟨p.step (.publish book), feedInv_step inv _, rfl, rfl, rfl, hafter, ?_, ?_⟩
  · simp only [Pipeline.step, List.countP_append, UInt64.ofNat_add, ← hdropped]
    generalize p.feed.publish p.queue book = out at hstep
    cases hstep with
    | dropped feed' hnext hinterval hupdates hpending hcount => exact hcount.2
    | queued feed' queue' sequence hs hlt hpush hnext hinterval hkind hcount =>
      simpa using hcount.2
  · intro event hlast
    simp only [Pipeline.step, List.getLast?_concat] at hlast ⊢
    generalize p.feed.publish p.queue book = out at hstep hlast
    cases hstep with
    | dropped feed' hnext hinterval hupdates hpending hcount => cases hlast
    | queued feed' queue' sequence hs hlt hpush hnext hinterval hkind hcount =>
      cases hlast
      rw [List.length_append, List.length_singleton]
      have hvalue : sequenceValue (MarketDataFeed.makeEvent book p.feed.nextKind sequence) =
          sequence.value := rfl
      omega

theorem pop (h : MarketInv processed feed queue subscriber p) {event : MarketDataEvent}
    {queue' : MarketDataQueue} {subscriber' : MarketDataBook} {applied : Bool}
    (hpop : publishOne queue subscriber = some (event, queue', subscriber', applied)) :
    ∃ p', MarketInv processed feed queue' subscriber' p' := by
  obtain ⟨inv, rfl, rfl, rfl, hbooks, hdropped, hlatest⟩ := h
  have hstep : p.step .pop =
      { p with queue := queue', subscriber := subscriber', popped := p.popped ++ [event] } := by
    simp only [Pipeline.step, hpop]
  have hinv := feedInv_step inv .pop
  rw [hstep] at hinv
  exact ⟨_, hinv, rfl, rfl, rfl, hbooks, hdropped, hlatest⟩

theorem popped_prefix (h : MarketInv processed feed queue subscriber p) :
    p.popped <+: p.enqueued := ⟨p.queue.items, h.inv.fifo.symm⟩

theorem length_outcomes (h : MarketInv processed feed queue subscriber p) :
    p.outcomes.length = processed.length := by
  rw [← h.inv.books, h.books, booksAfter, List.length_map, List.length_range]

/-- A published book is the depth of the book that the first messages lead to, as many as its
sequence number says. -/
theorem published (h : MarketInv processed feed queue subscriber p)
    (hsynchronized : subscriber.synchronized = true) :
    ∃ number, subscriber.lastSequence = some number ∧ number.value ≤ processed.length ∧
      let book := OrderBook.run ((processed.map InboundMessage.command).take number.value)
      subscriber.bids = padded (book.depth kMarketDataDepth).bids ∧
      subscriber.asks = padded (book.depth kMarketDataDepth).asks := by
  rw [← h.subscriber, h.inv.subscriber] at hsynchronized ⊢
  obtain ⟨number, book, hlast, hbook, hdepth⟩ := synchronized_published
    (fun event hevent => h.inv.carries event (h.popped_prefix.subset hevent)) hsynchronized
  rw [h.books, booksAfter, List.getElem?_map] at hbook
  obtain ⟨k, hk, rfl⟩ := Option.map_eq_some_iff.mp hbook
  obtain ⟨hlt, hget⟩ := List.getElem?_eq_some_iff.mp hk
  rw [List.length_range] at hlt
  rw [List.getElem_range] at hget
  have hpos := number.pos
  obtain rfl : k = number.value - 1 := hget.symm
  rw [Nat.sub_add_cancel hpos] at hdepth
  exact ⟨number, hlast, by omega, hdepth⟩

/-- A publisher that has nothing left to publish, of a feed that has dropped nothing, has
published the engine's book. -/
theorem current (h : MarketInv processed feed queue subscriber p) (hdrained : queue.items = [])
    (hdropped : feed.droppedEvents = 0) (hpos : 0 < processed.length)
    (hlt : processed.length < 2 ^ 64) :
    subscriber.synchronized = true ∧
      ∃ number, subscriber.lastSequence = some number ∧ number.value = processed.length := by
  have hlength := h.length_outcomes
  have hcount : p.outcomes.countP Option.isNone = 0 := by
    have hle := List.countP_le_length (p := Option.isNone) (l := p.outcomes)
    have hzero := congrArg UInt64.toNat (h.dropped.symm.trans (h.feed ▸ hdropped))
    rwa [UInt64.toNat_ofNat_of_lt' (by rw [UInt64.size]; omega)] at hzero
  obtain ⟨outcomes, outcome, hsplit⟩ : ∃ outcomes outcome, p.outcomes = outcomes ++ [outcome] := by
    obtain hnil | ⟨outcomes, outcome, hsplit⟩ := p.outcomes.eq_nil_or_concat
    · rw [hnil] at hlength
      simp at hlength
      omega
    · exact ⟨outcomes, outcome, by rw [hsplit, List.concat_eq_append]⟩
  obtain ⟨event, rfl⟩ : ∃ event, outcome = some event := by
    refine Option.ne_none_iff_exists'.mp fun hnone => ?_
    rw [hsplit, hnone, List.countP_append, List.countP_singleton] at hcount
    simp at hcount
  -- the last event is the one that was popped last
  have hpopped : p.popped = p.enqueued := by
    rw [h.inv.fifo, h.queue, hdrained, List.append_nil]
  have hlast : p.popped = outcomes.reduceOption ++ [event] := by
    rw [hpopped, Pipeline.enqueued, hsplit, List.reduceOption_append, List.reduceOption_singleton]
    rfl
  have hsome : ∀ event ∈ p.enqueued, event.sequence.isSome := by
    intro event hevent
    obtain ⟨sequence, -, hsequence, -⟩ := h.inv.carries event hevent
    simp [hsequence]
  have hall : outcomes.reduceOption ++ [event] <+: p.enqueued := by rw [← hpopped, hlast]
  have happly := apply_chain hsome h.inv.first h.inv.follows hall
  have hbook : subscriber = bookAt event := by
    rw [← h.subscriber, h.inv.subscriber, hlast, MarketDataBook.applyAll, Transducer.run_concat]
    exact congrArg Prod.fst happly
  have hvalue := h.latest event (by rw [hsplit, List.getLast?_concat])
  obtain ⟨number, hnumber⟩ := Option.isSome_iff_exists.mp
    (hsome event (by rw [← hpopped, hlast]; simp))
  refine ⟨by rw [hbook]; rfl, number, by rw [hbook]; exact hnumber, ?_⟩
  rw [sequenceValue, hnumber] at hvalue
  exact hvalue.trans hlength

end MarketInv

/-! ## The engine with its feeds -/

/-- The engine, with the writer of the log if there is one, and the published book. The feeds get
to know of a message when its call of `process_one` is about to return. -/
structure FeedsInv (s : MatchingEngineService) (handled finished : List InboundMessage)
    (writer : Option EventLogWriter) (subscriber : MarketDataBook) : Prop where
  metrics : MetricsInv s handled finished
  capture : ∀ w ∈ writer, ∃ captured feed queue, s.eventCaptureFeed = some (feed, queue) ∧
    CaptureInv (OrderBook.accepted (finished.map InboundMessage.command)) captured feed queue w
  market : ∃ feed queue p, s.marketDataFeed = some (feed, queue) ∧
    MarketInv finished feed queue subscriber p

namespace FeedsInv

variable {s s' : MatchingEngineService} {handled finished : List InboundMessage}
  {writer : Option EventLogWriter} {subscriber : MarketDataBook}

theorem inbound (h : FeedsInv s handled finished writer subscriber) (inbound : InboundQueue) :
    FeedsInv { s with inbound := inbound } handled finished writer subscriber :=
  ⟨h.metrics.congr rfl rfl, h.capture, h.market⟩

theorem occupancy (h : FeedsInv s handled finished writer subscriber) :
    FeedsInv s.recordInboundOccupancy handled finished writer subscriber :=
  ⟨h.metrics.occupancy, h.capture, h.market⟩

/-- The handler leaves the feeds alone. -/
theorem handle (h : FeedsInv s finished finished writer subscriber) (message : InboundMessage) :
    FeedsInv (s.handleCommand message.sessionId message.command).1 (finished ++ [message]) finished
      writer subscriber := by
  have hanswers := (handleCommand_spec s message.sessionId message.command).2
  refine ⟨h.metrics.handle message, fun w hw => ?_, ?_⟩
  · obtain ⟨captured, feed, queue, hfeed, hcapture⟩ := h.capture w hw
    exact ⟨captured, feed, queue, hanswers.eventCaptureFeed.trans hfeed, hcapture⟩
  · obtain ⟨feed, queue, p, hfeed, hmarket⟩ := h.market
    exact ⟨feed, queue, p, hanswers.marketDataFeed.trans hfeed, hmarket⟩

/-- Behind it an accepted command is captured, and the book is published. -/
theorem finish {message : InboundMessage} {accepted : Bool}
    (h : FeedsInv s (finished ++ [message]) finished writer subscriber)
    (haccepted : accepted =
      ((OrderBook.run (finished.map InboundMessage.command)).step message.command).2.accepted) :
    FeedsInv (s.finishMessage message accepted) (finished ++ [message]) (finished ++ [message])
      writer subscriber := by
  refine ⟨h.metrics.finish haccepted, fun w hw => ?_, ?_⟩
  · obtain ⟨captured, feed, queue, hfeed, hcapture⟩ := h.capture w hw
    rw [finishMessage, hfeed, List.map_append, List.map_singleton, OrderBook.accepted_concat,
      ← haccepted]
    cases accepted with
    | true =>
      obtain ⟨captured', hcapture'⟩ := hcapture.capture message.command
      exact ⟨captured', _, _, rfl, hcapture'⟩
    | false =>
      refine ⟨captured, feed, queue, rfl, ?_⟩
      rw [if_neg Bool.false_ne_true, List.append_nil]
      exact hcapture
  · obtain ⟨feed, queue, p, hfeed, hmarket⟩ := h.market
    obtain ⟨p', hmarket'⟩ := hmarket.publish message h.metrics.book
    rw [finishMessage, hfeed]
    exact ⟨_, _, p', rfl, hmarket'⟩

theorem rule : EngineRun.FinishRule fun s handled finished =>
    FeedsInv s handled finished writer subscriber where
  book h := h.metrics.book
  inbound h inbound := h.inbound inbound
  occupancy h := h.occupancy
  handle h message := h.handle message
  finish h haccepted := h.finish haccepted

end FeedsInv

end LowLatencyExchange
