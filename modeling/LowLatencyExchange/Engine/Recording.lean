import LowLatencyExchange.Engine.Basic
import LowLatencyExchange.EventLog.Format
import LowLatencyExchange.OrderBook.Shadow
import Mathlib.Tactic

/-!
# Recording the engine

The engine, the capture queue and the recorder, with arriving messages, `process_one` steps
and `drain_event_capture_one` steps in any order. The accepted commands are at all times the
logged ones followed by those in the capture queue, unless one was dropped or an append
failed. Rejected commands leave no trace in the book, so that a replay of the log rebuilds it.
-/
namespace LowLatencyExchange

open EventLog

/-- `drain` carries the outcome of the write, as for `append`. -/
inductive RecordingEvent where
  | receive (message : InboundMessage)
  | process
  | drain (failure : Option Nat)

/-- The engine with its capture feed and queue, the writer, and what its appends returned. -/
structure Recording where
  service : MatchingEngineService
  writer : EventLogWriter
  appends : List Bool

namespace Recording

def start (marketDataFeed : Option (MarketDataFeed × MarketDataQueue)) : Recording :=
  ⟨MatchingEngineService.new marketDataFeed (some (EventCaptureFeed.new, BoundedFifo.empty)),
    EventLogWriter.new, []⟩

/-- A message that finds the inbound queue full does not get in. -/
def receive (r : Recording) (message : InboundMessage) : Recording :=
  match r.service.inbound.tryPush message with
  | none => r
  | some inbound => { r with service := { r.service with inbound := inbound } }

def drain (r : Recording) (failure : Option Nat) : Recording :=
  match r.service.eventCaptureFeed with
  | none => r
  | some (feed, queue) =>
    let (queue, writer, written) := drainEventCaptureOne queue r.writer failure
    ⟨{ r.service with eventCaptureFeed := some (feed, queue) }, writer,
      r.appends ++ written.toList⟩

def step (r : Recording) : RecordingEvent → Recording
  | .receive message => r.receive message
  | .process => { r with service := r.service.processOne.1 }
  | .drain failure => r.drain failure

def run (marketDataFeed : Option (MarketDataFeed × MarketDataQueue))
    (events : List RecordingEvent) : Recording :=
  Transducer.run (fun r event => (step r event, ())) (start marketDataFeed) events

/-- The counter of the capture feed. -/
def droppedCommands (r : Recording) : UInt64 :=
  r.service.eventCaptureFeed.elim 0 fun x => x.1.droppedCommands

/-- The commands in the capture queue. -/
def undrained (r : Recording) : List CapturedCommand :=
  r.service.eventCaptureFeed.elim [] fun x => x.2.items

/-! ## The invariant -/

/-- What is in the file and in the capture queue, given the accepted commands. It holds as
long as no command was dropped and no append failed. -/
structure Logged (accepted : List Command) (queue : EventCaptureQueue) (writer : EventLogWriter) :
    Prop where
  good : writer.good = true
  file : ∃ logged, accepted = logged ++ queue.items ∧
    writer.file = logged.flatMap commandRecord

/-- The run so far has accepted these commands and dropped this many of them. The drop counter
is their number modulo `2 ^ 64`. -/
structure Inv (accepted : List Command) (dropped : Nat) (r : Recording) : Prop where
  book : r.service.book = OrderBook.run accepted
  allAccepted : AllAccepted OrderBook.empty accepted
  count : r.service.metrics.acceptedCommands = UInt64.ofNat accepted.length
  captured : ∃ feed queue, r.service.eventCaptureFeed = some (feed, queue) ∧
    feed.droppedCommands = UInt64.ofNat dropped ∧
    (dropped = 0 → (∀ written ∈ r.appends, written = true) → Logged accepted queue r.writer)

theorem inv_start (marketDataFeed : Option (MarketDataFeed × MarketDataQueue)) :
    Inv [] 0 (start marketDataFeed) where
  book := rfl
  allAccepted := by simp [AllAccepted]
  count := rfl
  captured := ⟨EventCaptureFeed.new, BoundedFifo.empty, rfl, rfl, fun _ _ => ⟨rfl, [], rfl, rfl⟩⟩

section

variable {accepted : List Command} {dropped : Nat} {r : Recording}

theorem Inv.droppedCommands_eq (h : Inv accepted dropped r) :
    r.droppedCommands = UInt64.ofNat dropped := by
  obtain ⟨feed, queue, hfeed, hcount, -⟩ := h.captured
  rw [droppedCommands, hfeed]
  exact hcount

theorem inv_receive (h : Inv accepted dropped r) (message : InboundMessage) :
    Inv accepted dropped (r.receive message) := by
  unfold receive
  split
  · exact h
  · exact ⟨h.book, h.allAccepted, h.count, h.captured⟩

/-- Capturing a command appends it to the queue, or counts a drop if the queue is full. -/
theorem capture_cases (feed : EventCaptureFeed) (queue : EventCaptureQueue)
    (command : CapturedCommand) :
    ((feed.capture queue command).2.items = queue.items ++ [command] ∧
      (feed.capture queue command).1.droppedCommands = feed.droppedCommands) ∨
    (queue.size = 4096 ∧ (feed.capture queue command).2.items = queue.items ∧
      (feed.capture queue command).1.droppedCommands = feed.droppedCommands + 1) := by
  have hoccupancy : ∀ (f : EventCaptureFeed) (q : EventCaptureQueue),
      (f.recordQueueOccupancy q).droppedCommands = f.droppedCommands := by
    intro f q
    unfold EventCaptureFeed.recordQueueOccupancy
    split_ifs <;> rfl
  unfold EventCaptureFeed.capture
  cases hpush : queue.tryPush command with
  | none => exact .inr ⟨BoundedFifo.tryPush_eq_none.mp hpush, rfl, hoccupancy _ _⟩
  | some queue' => exact .inl ⟨BoundedFifo.items_of_tryPush hpush, hoccupancy _ _⟩

theorem allAccepted_concat {accepted : List Command} {command : Command}
    (h : AllAccepted OrderBook.empty accepted)
    (hc : ((OrderBook.run accepted).step command).2.accepted = true) :
    AllAccepted OrderBook.empty (accepted ++ [command]) := by
  unfold AllAccepted
  rw [Transducer.outputs_concat]
  intro result hresult
  obtain hresult | hresult := List.mem_append.mp hresult
  · exact h result hresult
  · rw [List.mem_singleton.mp hresult]
    exact hc

/-- An accepted command joins the accepted ones, and may be dropped; a rejected one changes
nothing. -/
theorem inv_processMessage (h : Inv accepted dropped r) (message : InboundMessage) :
    ∃ accepted' dropped', dropped' ≤ dropped + 1 ∧
      Inv accepted' dropped' { r with service := r.service.processMessage message } := by
  obtain ⟨hbook, -, hcount, hcapture⟩ := r.service.processMessage_spec message
  obtain ⟨feed, queue, hfeed, hcounter, hlogged⟩ := h.captured
  have hinv := OrderBook.run_inv accepted
  rw [h.book] at hbook hcount hcapture
  rw [hfeed] at hcapture
  cases haccepted : ((OrderBook.run accepted).step message.command).2.accepted with
  | false =>
    rw [haccepted] at hcount hcapture
    rw [OrderBook.step_of_rejected hinv haccepted] at hbook
    exact ⟨accepted, dropped, Nat.le_succ dropped, hbook, h.allAccepted, hcount.trans h.count, feed,
      queue, hcapture, hcounter, hlogged⟩
  | true =>
    simp only [haccepted, if_true, Option.map_some] at hcount hcapture
    have hbook' : (r.service.processMessage message).book =
        OrderBook.run (accepted ++ [message.command]) := by
      rw [OrderBook.run_concat]
      exact hbook
    have hcount' : (r.service.processMessage message).metrics.acceptedCommands =
        UInt64.ofNat (accepted ++ [message.command]).length := by
      rw [List.length_append, List.length_singleton, UInt64.ofNat_add, ← h.count]
      exact hcount
    have hall := allAccepted_concat h.allAccepted haccepted
    obtain ⟨hitems, hsame⟩ | ⟨-, -, hdrop⟩ := capture_cases feed queue message.command
    · refine ⟨_, dropped, Nat.le_succ dropped, hbook', hall, hcount', _, _, hcapture,
        hsame.trans hcounter, fun hzero hwritten => ?_⟩
      obtain ⟨hgood, logged, hsplit, hfile⟩ := hlogged hzero hwritten
      refine ⟨hgood, logged, ?_, hfile⟩
      rw [hsplit, List.append_assoc]
      exact congrArg (logged ++ ·) hitems.symm
    · refine ⟨_, dropped + 1, Nat.le_refl _, hbook', hall, hcount', _, _, hcapture, ?_,
        fun hzero => absurd hzero (Nat.succ_ne_zero dropped)⟩
      refine hdrop.trans ?_
      rw [hcounter, UInt64.ofNat_add]
      rfl

theorem inv_process (h : Inv accepted dropped r) :
    ∃ accepted' dropped', dropped' ≤ dropped + 1 ∧
      Inv accepted' dropped' { r with service := r.service.processOne.1 } := by
  unfold MatchingEngineService.processOne
  dsimp only
  split
  · exact ⟨accepted, dropped, Nat.le_succ dropped, h.book, h.allAccepted, h.count, h.captured⟩
  · next message inbound _ =>
    have hpopped : Inv accepted dropped
        { r with service := { r.service.recordInboundOccupancy with inbound := inbound } } :=
      ⟨h.book, h.allAccepted, h.count, h.captured⟩
    exact inv_processMessage hpopped message

/-- A drained command moves from the front of the queue to the end of the file. -/
theorem inv_drain (h : Inv accepted dropped r) (failure : Option Nat) :
    Inv accepted dropped (r.drain failure) := by
  obtain ⟨feed, queue, hfeed, hcounter, hlogged⟩ := h.captured
  simp only [drain, hfeed, drainEventCaptureOne]
  cases hpop : queue.tryPop with
  | none =>
    dsimp only
    refine ⟨h.book, h.allAccepted, h.count, feed, queue, rfl, hcounter, ?_⟩
    intro hzero hwritten
    exact hlogged hzero (by simpa using hwritten)
  | some popped =>
    obtain ⟨command, queue'⟩ := popped
    have hitems := BoundedFifo.items_of_tryPop hpop
    dsimp only [Option.toList_some]
    refine ⟨h.book, h.allAccepted, h.count, feed, queue', rfl, hcounter, ?_⟩
    intro hzero hwritten
    have hbefore : ∀ written ∈ r.appends, written = true :=
      fun written hm => hwritten written (List.mem_append_left _ hm)
    have hlast : (r.writer.append command failure).2 = true :=
      hwritten _ (List.mem_append_right _ List.mem_cons_self)
    obtain ⟨-, logged, hsplit, hfile⟩ := hlogged hzero hbefore
    rw [append_of_written hlast]
    refine ⟨rfl, logged ++ [command], ?_, ?_⟩
    · rw [hsplit, hitems, List.append_assoc, List.singleton_append]
    · rw [hfile, List.flatMap_append, List.flatMap_singleton]

theorem inv_step (h : Inv accepted dropped r) (event : RecordingEvent) :
    ∃ accepted' dropped', dropped' ≤ dropped + 1 ∧ Inv accepted' dropped' (r.step event) := by
  cases event with
  | receive message => exact ⟨accepted, dropped, Nat.le_succ dropped, inv_receive h message⟩
  | process => exact inv_process h
  | drain failure => exact ⟨accepted, dropped, Nat.le_succ dropped, inv_drain h failure⟩

end

section

variable (marketDataFeed : Option (MarketDataFeed × MarketDataQueue))

/-- The first command that is dropped shows in the counter, so that a counter that is zero in
every state of the run says that none was. -/
theorem inv_run (events : List RecordingEvent) :
    ∃ accepted dropped, Inv accepted dropped (run marketDataFeed events) ∧
      ((∀ before, before <+: events → (run marketDataFeed before).droppedCommands = 0) →
        dropped = 0) := by
  induction events using List.reverseRecOn with
  | nil => exact ⟨[], 0, inv_start marketDataFeed, fun _ => rfl⟩
  | append_singleton events event ih =>
    obtain ⟨accepted, dropped, h, hnone⟩ := ih
    obtain ⟨accepted', dropped', hle, h'⟩ := inv_step h event
    have hrun : run marketDataFeed (events ++ [event]) = (run marketDataFeed events).step event :=
      Transducer.run_concat _ _ _ _
    rw [← hrun] at h'
    refine ⟨accepted', dropped', h', fun hall => ?_⟩
    have hbefore := hnone fun before hbefore => hall before (hbefore.trans (List.prefix_append _ _))
    have hzero := h'.droppedCommands_eq.symm.trans (hall _ (List.prefix_refl _))
    by_contra hne
    obtain rfl : dropped' = 1 := by omega
    exact absurd hzero (by decide)

/-! ## Replaying the file -/

/-- When the capture queue is drained, no command was ever dropped and no append failed, the file
replays without an error to the engine's own book, with as many commands as it accepted. -/
theorem replay_recorded (events : List RecordingEvent)
    (hdrained : (run marketDataFeed events).undrained = [])
    (hdropped : ∀ before, before <+: events → (run marketDataFeed before).droppedCommands = 0)
    (hwritten : ∀ written ∈ (run marketDataFeed events).appends, written = true) :
    replay (run marketDataFeed events).writer.file =
      (⟨(run marketDataFeed events).service.book,
        (run marketDataFeed events).service.metrics.acceptedCommands⟩, none) ∧
    replayEventLog (some (run marketDataFeed events).writer.file) =
      ⟨none, (run marketDataFeed events).service.metrics.acceptedCommands,
        (run marketDataFeed events).service.book.stateDigest⟩ := by
  obtain ⟨accepted, dropped, h, hnone⟩ := inv_run marketDataFeed events
  obtain ⟨feed, queue, hfeed, -, hlogged⟩ := h.captured
  simp only [undrained, hfeed, Option.elim_some] at hdrained
  obtain ⟨-, logged, hsplit, hfile⟩ := hlogged (hnone hdropped) hwritten
  obtain rfl : accepted = logged := by rw [hsplit, hdrained, List.append_nil]
  have hreplay := replay_records h.allAccepted
  rw [← hfile, ← h.book, ← h.count] at hreplay
  refine ⟨hreplay, ?_⟩
  simp only [replayEventLog, hreplay]

end

/-- A sale that rests, a cancel of an unknown order, which is rejected, a purchase that takes a
part of the sale, and a replace of the rest. The recorder drains late. -/
def recordedTrades : List RecordingEvent :=
  [.receive ⟨1, .submit ⟨SequenceNumber.of 1, OrderId.of 10, .sell, .limit, Quantity.of 5,
      some (Price.of 100)⟩, 48⟩,
    .receive ⟨2, .cancel ⟨SequenceNumber.of 1, OrderId.of 99⟩, 24⟩,
    .process, .process,
    .receive ⟨2, .submit ⟨SequenceNumber.of 2, OrderId.of 11, .buy, .market, Quantity.of 3,
      none⟩, 48⟩,
    .drain none, .process,
    .receive ⟨1, .replace ⟨SequenceNumber.of 2, OrderId.of 10, Quantity.of 7, Price.of 101⟩, 40⟩,
    .process, .drain none, .drain none, .drain none]

theorem recordedTrades_undropped :
    ∀ before ∈ recordedTrades.inits, (run none before).droppedCommands = 0 := by
  decide +kernel

theorem recordedTrades_replayed :
    (run none recordedTrades).service.metrics.acceptedCommands = 3 ∧
    replay (run none recordedTrades).writer.file =
      (⟨(run none recordedTrades).service.book,
        (run none recordedTrades).service.metrics.acceptedCommands⟩, none) :=
  ⟨by decide +kernel,
    (replay_recorded none recordedTrades (by decide +kernel)
      (fun before hbefore => recordedTrades_undropped before ((List.mem_inits _ _).mpr hbefore))
      (by decide +kernel)).1⟩

/-! ## A counter that wraps -/

/-- A message that arrives and is processed. -/
def handled (message : InboundMessage) : List RecordingEvent := [.receive message, .process]

/-- A run from some state on. -/
abbrev runFrom (r : Recording) (events : List RecordingEvent) : Recording :=
  Transducer.run (fun r event => (step r event, ())) r events

/-- An accepted message that meets an empty inbound queue is captured, or dropped, at once. -/
theorem runFrom_handled {r : Recording} {feed : EventCaptureFeed} {queue : EventCaptureQueue}
    (hfeed : r.service.eventCaptureFeed = some (feed, queue))
    (hempty : r.service.inbound.items = []) (message : InboundMessage)
    (haccepted : (r.service.book.step message.command).2.accepted = true) :
    let r' := r.runFrom (handled message)
    r'.service.inbound.items = [] ∧
      r'.service.book = (r.service.book.step message.command).1 ∧
      r'.service.eventCaptureFeed = some (feed.capture queue message.command) ∧
      r'.writer = r.writer ∧ r'.appends = r.appends := by
  obtain ⟨inbound, hitems⟩ : ∃ inbound : InboundQueue, inbound.items = [message] :=
    ⟨⟨[message], by simp⟩, rfl⟩
  have hpush : r.service.inbound.tryPush message = some inbound :=
    BoundedFifo.tryPush_of_items (by rw [hitems, hempty, List.nil_append])
  have hpop : inbound.tryPop = some (message, BoundedFifo.empty) :=
    BoundedFifo.tryPop_of_items hitems
  let s := { r.service with inbound := inbound }
  have hprocess : s.processOne.1 =
      { s.recordInboundOccupancy with inbound := BoundedFifo.empty }.processMessage message := by
    have hpop' : s.recordInboundOccupancy.inbound.tryPop = some (message, BoundedFifo.empty) := hpop
    simp only [MatchingEngineService.processOne, hpop']
  have hrun : r.runFrom (handled message) = { r with service := s.processOne.1 } := by
    simp only [runFrom, handled, Transducer.run_cons, Transducer.run_nil, step, receive, hpush]
    rfl
  obtain ⟨hbook, hinbound, -, hcapture⟩ := MatchingEngineService.processMessage_spec
    { s.recordInboundOccupancy with inbound := BoundedFifo.empty } message
  dsimp only
  rw [hrun, hprocess]
  refine ⟨congrArg BoundedFifo.items hinbound, hbook, hcapture.trans ?_, rfl, rfl⟩
  exact (if_pos haccepted).trans (congrArg (Option.map _) hfeed)

/-- The recorder empties the queue into the file. -/
theorem runFrom_drains {r : Recording} {feed : EventCaptureFeed} {queue : EventCaptureQueue}
    (hfeed : r.service.eventCaptureFeed = some (feed, queue)) (hgood : r.writer.good = true)
    {n : Nat} (hn : n = queue.items.length) :
    let r' := r.runFrom (List.replicate n (.drain none))
    r'.service.book = r.service.book ∧
      (∃ queue', r'.service.eventCaptureFeed = some (feed, queue') ∧ queue'.items = []) ∧
      r'.writer.file = r.writer.file ++ queue.items.flatMap commandRecord ∧
      r'.appends = r.appends ++ List.replicate n true := by
  induction n generalizing r queue with
  | zero =>
    have hitems := List.eq_nil_of_length_eq_zero hn.symm
    exact ⟨rfl, ⟨queue, hfeed, hitems⟩, by simp [hitems], by simp⟩
  | succ n ih =>
    obtain ⟨popped, hpop⟩ : ∃ popped, queue.tryPop = some popped := by
      refine Option.ne_none_iff_exists'.mp fun hnone => ?_
      simp [BoundedFifo.items_of_tryPop_none hnone] at hn
    have hitems := BoundedFifo.items_of_tryPop hpop
    have hwritten : (r.writer.append popped.1 none).2 = true := by
      simp [EventLogWriter.append, hgood, encodeCommand_eq]
    have hstep : r.step (.drain none) =
        ⟨{ r.service with eventCaptureFeed := some (feed, popped.2) },
          ⟨true, r.writer.file ++ commandRecord popped.1⟩, r.appends ++ [true]⟩ := by
      simp only [step, drain, hfeed, drainEventCaptureOne, hpop, Option.toList_some, hwritten]
      rw [append_of_written hwritten]
    rw [hitems, List.length_cons, Nat.succ_inj] at hn
    have hgood' : (r.step (.drain none)).writer.good = true := by rw [hstep]
    have hfeed' : (r.step (.drain none)).service.eventCaptureFeed = some (feed, popped.2) := by
      rw [hstep]
    obtain ⟨hbook, hqueue, hfile, happends⟩ := ih hfeed' hgood' hn
    rw [List.replicate_succ, runFrom, Transducer.run_cons]
    refine ⟨hbook.trans (by rw [hstep]), hqueue, hfile.trans ?_, happends.trans ?_⟩
    · rw [hstep, hitems, List.flatMap_cons, List.append_assoc]
    · rw [hstep, List.replicate_succ, List.append_assoc]
      rfl

/-- Nothing was drained yet: the capture queue holds the first of the accepted commands, and all
others were dropped. -/
structure Undrained (accepted : List Command) (r : Recording) : Prop where
  inbound : r.service.inbound.items = []
  book : r.service.book = OrderBook.run accepted
  captured : ∃ feed queue, r.service.eventCaptureFeed = some (feed, queue) ∧
    queue.items = accepted.take 4096 ∧
    feed.droppedCommands = UInt64.ofNat (accepted.length - 4096)
  writer : r.writer = EventLogWriter.new
  appends : r.appends = []

theorem capture_undrained {accepted : List Command} {feed : EventCaptureFeed}
    {queue : EventCaptureQueue} (hitems : queue.items = accepted.take 4096)
    (hdropped : feed.droppedCommands = UInt64.ofNat (accepted.length - 4096)) (command : Command) :
    (feed.capture queue command).2.items = (accepted ++ [command]).take 4096 ∧
      (feed.capture queue command).1.droppedCommands =
        UInt64.ofNat ((accepted ++ [command]).length - 4096) := by
  have hsize : queue.size = min 4096 accepted.length := by
    rw [BoundedFifo.size, hitems, List.length_take]
  rw [List.length_append, List.length_singleton]
  obtain ⟨hpushed, hsame⟩ | ⟨hfull, hstays, hcounted⟩ := capture_cases feed queue command
  · have hbounded := (feed.capture queue command).2.bounded
    rw [hpushed, List.length_append, List.length_singleton, ← BoundedFifo.size] at hbounded
    have hlt : accepted.length < 4096 := by omega
    rw [hpushed, hitems, List.take_of_length_le (by omega), List.take_of_length_le (by simp; omega),
      hsame, hdropped, Nat.sub_eq_zero_of_le (by omega), Nat.sub_eq_zero_of_le (by omega)]
    exact ⟨rfl, rfl⟩
  · have hle : 4096 ≤ accepted.length := by omega
    rw [hstays, hitems, List.take_append_of_le_length hle, hcounted, hdropped,
      show accepted.length + 1 - 4096 = accepted.length - 4096 + 1 by omega, UInt64.ofNat_add]
    exact ⟨rfl, rfl⟩

/-- While the recorder sleeps, messages that are all accepted arrive and are processed. -/
theorem undrained_run (messages : List InboundMessage)
    (hall : AllAccepted OrderBook.empty (messages.map InboundMessage.command)) :
    Undrained (messages.map InboundMessage.command)
      (run none (messages.flatMap handled)) := by
  induction messages using List.reverseRecOn with
  | nil => exact ⟨rfl, rfl, ⟨_, _, rfl, rfl, rfl⟩, rfl, rfl⟩
  | append_singleton messages message ih =>
    rw [List.map_append, List.map_singleton, AllAccepted, Transducer.outputs_concat] at hall
    have haccepted := hall _ (List.mem_append_right _ (List.mem_singleton_self _))
    obtain ⟨hinbound, hbook, ⟨feed, queue, hfeed, hitems, hdropped⟩, hwriter, happends⟩ :=
      ih fun result hresult => hall result (List.mem_append_left _ hresult)
    have hrun : run none ((messages ++ [message]).flatMap handled) =
        (run none (messages.flatMap handled)).runFrom (handled message) := by
      rw [List.flatMap_append, List.flatMap_singleton, run, Transducer.run_append]
      rfl
    obtain ⟨hinbound', hbook', hcapture, hwriter', happends'⟩ :=
      runFrom_handled hfeed hinbound message (by rw [hbook]; exact haccepted)
    rw [hrun, List.map_append, List.map_singleton]
    obtain ⟨hitems', hdropped'⟩ := capture_undrained hitems hdropped message.command
    refine ⟨hinbound', ?_, ⟨_, _, hcapture, hitems', hdropped'⟩, hwriter'.trans hwriter,
      happends'.trans happends⟩
    rw [hbook', hbook, OrderBook.run_concat]

/-- The recorder wakes when the messages have been processed. -/
theorem runFrom_recorder {accepted : List Command} {r : Recording} (h : Undrained accepted r)
    (hlength : 4096 ≤ accepted.length) :
    let r' := r.runFrom (List.replicate 4096 (.drain none))
    r'.service.book = OrderBook.run accepted ∧ r'.undrained = [] ∧
      r'.droppedCommands = UInt64.ofNat (accepted.length - 4096) ∧
      r'.writer.file = (accepted.take 4096).flatMap commandRecord ∧
      ∀ written ∈ r'.appends, written = true := by
  obtain ⟨-, hbook, ⟨feed, queue, hfeed, hitems, hdropped⟩, hwriter, happends⟩ := h
  have hcount : 4096 = queue.items.length := by
    rw [hitems, List.length_take, Nat.min_eq_left hlength]
  obtain ⟨hbook', ⟨queue', hfeed', hempty⟩, hfile, hall⟩ :=
    runFrom_drains hfeed (by rw [hwriter]; rfl) hcount
  refine ⟨hbook'.trans hbook, ?_, ?_, ?_, ?_⟩
  · rw [undrained, hfeed']
    exact hempty
  · rw [droppedCommands, hfeed']
    exact hdropped
  · rw [hfile, hwriter, hitems]
    rfl
  · rw [hall, happends, List.nil_append]
    exact fun written => List.eq_of_mem_replicate

/-- A sale, `n` replaces that ask for the quantity that it has, and one that asks for less. -/
def replacedSale (n : Nat) : List InboundMessage :=
  [⟨1, .submit ⟨SequenceNumber.of 1, OrderId.of 1, .sell, .limit, Quantity.of 5,
    some (Price.of 100)⟩, 48⟩] ++
  List.replicate n ⟨1, .replace ⟨SequenceNumber.of 2, OrderId.of 1, Quantity.of 5, Price.of 100⟩, 40⟩ ++
  [⟨1, .replace ⟨SequenceNumber.of 2, OrderId.of 1, Quantity.of 4, Price.of 100⟩, 40⟩]

/-- The book with the sale alone. -/
def saleBook : OrderBook :=
  (OrderBook.empty.step (.submit ⟨SequenceNumber.of 1, OrderId.of 1, .sell, .limit, Quantity.of 5,
    some (Price.of 100)⟩)).1

/-- All commands of the sale are accepted, and the book is that of the sale up to the last. -/
theorem replacedSale_accepted (n : Nat) :
    let commands := (replacedSale n).map InboundMessage.command
    AllAccepted OrderBook.empty commands ∧
      (∀ k, 1 ≤ k → k ≤ n + 1 → OrderBook.run (commands.take k) = saleBook) ∧
      OrderBook.run commands =
        (saleBook.step (.replace ⟨SequenceNumber.of 2, OrderId.of 1, Quantity.of 4, Price.of 100⟩)).1 := by
  have hkeep : saleBook.step
      (.replace ⟨SequenceNumber.of 2, OrderId.of 1, Quantity.of 5, Price.of 100⟩) =
        (saleBook, .replace ⟨OrderId.of 1, [], some (Quantity.of 5), none⟩) := by
    decide +kernel
  have hrun : ∀ k, Transducer.run OrderBook.step saleBook (List.replicate k
      (.replace ⟨SequenceNumber.of 2, OrderId.of 1, Quantity.of 5, Price.of 100⟩)) = saleBook := by
    intro k
    induction k with
    | zero => rfl
    | succ k ih => rw [List.replicate_succ, Transducer.run_cons, hkeep, ih]
  have hout : ∀ k, ∀ result ∈ Transducer.outputs OrderBook.step saleBook (List.replicate k
      (.replace ⟨SequenceNumber.of 2, OrderId.of 1, Quantity.of 5, Price.of 100⟩)),
      result.accepted = true := by
    intro k
    induction k with
    | zero => simp
    | succ k ih =>
      rw [List.replicate_succ, Transducer.outputs_cons, hkeep]
      intro result hresult
      rcases List.mem_cons.mp hresult with rfl | hresult
      · rfl
      · exact ih result hresult
  simp only [replacedSale, List.map_append, List.map_replicate, List.map_cons, List.map_nil]
  refine ⟨?_, fun k hpos hk => ?_, ?_⟩
  · rw [AllAccepted, Transducer.outputs_append, Transducer.outputs_append, Transducer.run_append]
    intro result hresult
    rcases List.mem_append.mp hresult with hresult | hresult
    · rcases List.mem_append.mp hresult with hresult | hresult
      · rw [List.mem_singleton.mp hresult]
        decide +kernel
      · exact hout n result hresult
    · change result ∈ Transducer.outputs OrderBook.step
        (Transducer.run OrderBook.step saleBook (List.replicate n _)) _ at hresult
      rw [hrun] at hresult
      rw [List.mem_singleton.mp hresult]
      decide +kernel
  · obtain ⟨k, rfl⟩ := Nat.exists_eq_add_of_le' hpos
    rw [List.append_assoc, List.singleton_append, List.take_succ_cons,
      List.take_append_of_le_length (by simp; omega), List.take_replicate, OrderBook.run,
      Transducer.run_cons]
    exact hrun _
  · rw [OrderBook.run, Transducer.run_append, Transducer.run_append]
    change Transducer.run OrderBook.step (Transducer.run OrderBook.step saleBook _) _ = _
    rw [hrun]
    rfl

/-- The messages of the sale arrive and are processed while the recorder sleeps; then it drains
the queue. -/
def unrecordedSale (n : Nat) : List RecordingEvent :=
  (replacedSale n).flatMap handled ++ List.replicate 4096 (.drain none)

theorem unrecordedSale_lost {n : Nat} (hn : 4095 ≤ n) :
    let r := run none (unrecordedSale n)
    r.undrained = [] ∧ r.droppedCommands = UInt64.ofNat (n - 4094) ∧
      (∀ written ∈ r.appends, written = true) ∧
      (replay r.writer.file).2 = none ∧ (replay r.writer.file).1.book ≠ r.service.book ∧
      (replayEventLog (some r.writer.file)).stateDigest ≠ r.service.book.stateDigest := by
  obtain ⟨hall, hbooks, hbook⟩ := replacedSale_accepted n
  have hlength : ((replacedSale n).map InboundMessage.command).length = n + 2 := by
    simp [replacedSale]
  obtain ⟨hlast, hdrained, hdropped, hfile, hwritten⟩ :=
    runFrom_recorder (undrained_run _ hall) (by rw [hlength]; omega)
  have hrun : run none (unrecordedSale n) = (run none ((replacedSale n).flatMap handled)).runFrom
      (List.replicate 4096 (.drain none)) := Transducer.run_append _ _ _ _
  have htaken : AllAccepted OrderBook.empty
      (((replacedSale n).map InboundMessage.command).take 4096) := by
    rw [← List.take_append_drop 4096 ((replacedSale n).map InboundMessage.command)] at hall
    exact hall.left
  have hreplay := replay_records htaken
  rw [← hfile, hbooks 4096 (by omega) (by omega)] at hreplay
  have hdiffer : saleBook ≠ (saleBook.step
      (.replace ⟨SequenceNumber.of 2, OrderId.of 1, Quantity.of 4, Price.of 100⟩)).1 ∧
      saleBook.stateDigest ≠ (saleBook.step
        (.replace ⟨SequenceNumber.of 2, OrderId.of 1, Quantity.of 4, Price.of 100⟩)).1.stateDigest := by
    decide +kernel
  rw [hbook] at hlast
  rw [hlength, Nat.add_sub_add_right n 2 4094] at hdropped
  intro r
  rw [← hrun] at hlast hdrained hdropped hfile hwritten hreplay
  refine ⟨hdrained, hdropped, hwritten, ?_, ?_, ?_⟩
  · rw [hreplay]
  · rw [hreplay, hlast]
    exact hdiffer.1
  · rw [replayEventLog, hreplay, hlast]
    exact hdiffer.2

/-- The recorder sleeps while `2 ^ 64 + 4096` commands are accepted, and then drains the queue.
The drop counter has wrapped to zero, every append returned true and the log replays without an
error, but not to the engine's book. -/
theorem unrecordedSale_unnoticed :
    let r := run none (unrecordedSale (2 ^ 64 + 4094))
    r.undrained = [] ∧ r.droppedCommands = 0 ∧ (∀ written ∈ r.appends, written = true) ∧
      (replay r.writer.file).2 = none ∧ (replay r.writer.file).1.book ≠ r.service.book ∧
      (replayEventLog (some r.writer.file)).stateDigest ≠ r.service.book.stateDigest := by
  obtain ⟨hdrained, hdropped, hrest⟩ := unrecordedSale_lost (n := 2 ^ 64 + 4094) (by decide)
  refine ⟨hdrained, hdropped.trans ?_, hrest⟩
  decide

end Recording

end LowLatencyExchange
