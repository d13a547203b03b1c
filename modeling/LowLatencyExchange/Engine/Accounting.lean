import LowLatencyExchange.Engine.Recording
import LowLatencyExchange.Engine.Sessions
import Mathlib.Tactic

/-!
# The counters of the engine

`MatchingEngineMetrics` in every run: each counter is a count over the processed messages and
what the book returned for them. The counters are 64-bit words, and the counts are taken modulo
`2 ^ 64`. The high-water mark of the inbound queue is the largest occupancy that a call of
`process_one` has seen.
-/
namespace LowLatencyExchange

open Protocol EventLog MatchingEngineService

/-! ## The accepted commands -/

namespace OrderBook

/-- The commands that are accepted when their turn comes. -/
def accepted (commands : List Command) : List Command :=
  ((trace commands).filter fun x => x.2.accepted).map Prod.fst

theorem accepted_concat (commands : List Command) (c : Command) :
    accepted (commands ++ [c]) =
      accepted commands ++ if ((run commands).step c).2.accepted then [c] else [] := by
  rw [accepted, trace_concat, List.filter_append, List.map_append, accepted]
  cases h : ((run commands).step c).2.accepted with
  | false => simp [h]
  | true => simp [h]

theorem length_accepted (commands : List Command) :
    (accepted commands).length = (trace commands).countP fun x => x.2.accepted := by
  rw [accepted, List.length_map, List.countP_eq_length_filter]

/-- Rejected commands leave the book alone, so that the accepted ones alone lead to it. -/
theorem run_accepted (commands : List Command) :
    run (accepted commands) = run commands ∧ AllAccepted empty (accepted commands) := by
  induction commands using List.reverseRecOn with
  | nil => exact ⟨rfl, by simp [AllAccepted, accepted, trace, Transducer.trace]⟩
  | append_singleton commands c ih =>
    obtain ⟨hrun, hall⟩ := ih
    rw [accepted_concat, run_concat]
    cases hc : ((run commands).step c).2.accepted with
    | false =>
      rw [if_neg Bool.false_ne_true, List.append_nil, step_of_rejected (run_inv commands) hc]
      exact ⟨hrun, hall⟩
    | true =>
      rw [if_pos rfl, run_concat, hrun]
      refine ⟨rfl, Recording.allAccepted_concat hall ?_⟩
      rw [hrun]
      exact hc

end OrderBook

/-! ## Counts -/

/-- The processed commands that satisfy `p` together with their results. -/
def countOf (processed : List InboundMessage) (p : Command × Result → Bool) : Nat :=
  (OrderBook.trace (processed.map InboundMessage.command)).countP p

/-- The executions of all processed commands. -/
def executionCount (processed : List InboundMessage) : Nat :=
  ((OrderBook.trace (processed.map InboundMessage.command)).map
    fun x => x.2.executions.length).sum

theorem countOf_concat (processed : List InboundMessage) (message : InboundMessage)
    (p : Command × Result → Bool) :
    countOf (processed ++ [message]) p = countOf processed p +
      (p (message.command, ((OrderBook.run (processed.map InboundMessage.command)).step
        message.command).2)).toNat := by
  rw [countOf, List.map_append, List.map_singleton, OrderBook.trace_concat, List.countP_append,
    List.countP_singleton, countOf]
  split_ifs with h <;> simp [h]

theorem executionCount_concat (processed : List InboundMessage) (message : InboundMessage) :
    executionCount (processed ++ [message]) = executionCount processed +
      ((OrderBook.run (processed.map InboundMessage.command)).step
        message.command).2.executions.length := by
  simp [executionCount, OrderBook.trace_concat]

/-- Every processed command is accepted or rejected. -/
theorem countOf_accepted_rejected (processed : List InboundMessage) :
    countOf processed (fun x => x.2.accepted) + countOf processed (fun x => !x.2.accepted) =
      processed.length := by
  induction processed using List.reverseRecOn with
  | nil => rfl
  | append_singleton processed message ih =>
    rw [countOf_concat, countOf_concat, List.length_append, List.length_singleton, ← ih]
    cases ((OrderBook.run (processed.map InboundMessage.command)).step message.command).2.accepted <;>
      simp only [Bool.toNat_true, Bool.toNat_false, Bool.not_true, Bool.not_false] <;> omega

/-- The bytes of the frames that the processed messages came in. -/
def receivedBytes (processed : List InboundMessage) : Nat :=
  (processed.map fun message => (inboundSize message).toNat).sum

/-! ## The counters -/

/-- A counter that is incremented if `p` holds. -/
def increment (counter : UInt64) (p : Bool) : UInt64 := if p then counter + 1 else counter

theorem increment_ofNat (n : Nat) (p : Bool) :
    increment (UInt64.ofNat n) p = UInt64.ofNat (n + p.toNat) := by
  cases p
  · rfl
  · exact (UInt64.ofNat_add n 1).symm

theorem recordCommandResult_eq (metrics : MatchingEngineMetrics) (message : InboundMessage)
    (accepted : Bool) :
    recordCommandResult metrics message accepted =
      { metrics with
        acceptedCommands := increment metrics.acceptedCommands accepted
        rejectedCommands := increment metrics.rejectedCommands (!accepted)
        acceptedCancels :=
          increment metrics.acceptedCancels (isCancel message.command && accepted)
        rejectedCancels :=
          increment metrics.rejectedCancels (isCancel message.command && !accepted) } := by
  unfold recordCommandResult increment
  cases accepted <;> cases isCancel message.command <;> rfl

/-- The counters when the commands of `handled` were handled, and the calls of `process_one` for
`finished` have returned. Within a call these are not the same. -/
structure MetricsInv (s : MatchingEngineService) (handled finished : List InboundMessage) :
    Prop where
  book : s.book = OrderBook.run (handled.map InboundMessage.command)
  executions : s.metrics.executions = UInt64.ofNat (executionCount handled)
  acceptedCommands : s.metrics.acceptedCommands =
    UInt64.ofNat (countOf finished fun x => x.2.accepted)
  rejectedCommands : s.metrics.rejectedCommands =
    UInt64.ofNat (countOf finished fun x => !x.2.accepted)
  acceptedCancels : s.metrics.acceptedCancels =
    UInt64.ofNat (countOf finished fun x => isCancel x.1 && x.2.accepted)
  rejectedCancels : s.metrics.rejectedCancels =
    UInt64.ofNat (countOf finished fun x => isCancel x.1 && !x.2.accepted)
  inboundBytes : s.metrics.inboundBytes = UInt64.ofNat (receivedBytes finished)

namespace MetricsInv

variable {s s' : MatchingEngineService} {handled finished : List InboundMessage}

theorem congr (h : MetricsInv s handled finished) (hbook : s'.book = s.book)
    (hmetrics : s'.metrics = s.metrics) : MetricsInv s' handled finished where
  book := hbook.trans h.book
  executions := hmetrics ▸ h.executions
  acceptedCommands := hmetrics ▸ h.acceptedCommands
  rejectedCommands := hmetrics ▸ h.rejectedCommands
  acceptedCancels := hmetrics ▸ h.acceptedCancels
  rejectedCancels := hmetrics ▸ h.rejectedCancels
  inboundBytes := hmetrics ▸ h.inboundBytes

theorem occupancy (h : MetricsInv s handled finished) :
    MetricsInv s.recordInboundOccupancy handled finished :=
  ⟨h.book, h.executions, h.acceptedCommands, h.rejectedCommands, h.acceptedCancels,
    h.rejectedCancels, h.inboundBytes⟩

theorem inv (h : MetricsInv s handled finished) : s.book.Inv := h.book ▸ OrderBook.run_inv _

/-- The handler counts the executions. -/
theorem handle (h : MetricsInv s finished finished) (message : InboundMessage) :
    MetricsInv (s.handleCommand message.sessionId message.command).1 (finished ++ [message])
      finished := by
  rw [handleCommand_handled h.inv message.sessionId message.command]
  refine ⟨?_, ?_, h.acceptedCommands, h.rejectedCommands, h.acceptedCancels, h.rejectedCancels,
    h.inboundBytes⟩
  · rw [List.map_append, List.map_singleton, OrderBook.run_concat, ← h.book]
    rfl
  · rw [executionCount_concat, UInt64.ofNat_add, ← h.executions, ← h.book]
    rfl

/-- Behind it the command is counted. -/
theorem finish {message : InboundMessage} {accepted : Bool}
    (h : MetricsInv s (finished ++ [message]) finished)
    (haccepted : accepted =
      ((OrderBook.run (finished.map InboundMessage.command)).step message.command).2.accepted) :
    MetricsInv (s.finishMessage message accepted) (finished ++ [message])
      (finished ++ [message]) := by
  subst haccepted
  have hcounted := fun p => countOf_concat finished message p
  rw [finishMessage, recordCommandResult_eq]
  refine ⟨h.book, h.executions, ?_, ?_, ?_, ?_, ?_⟩
  · rw [hcounted, ← increment_ofNat, ← h.acceptedCommands]
  · rw [hcounted, ← increment_ofNat, ← h.rejectedCommands]
  · rw [hcounted, ← increment_ofNat, ← h.acceptedCancels]
  · rw [hcounted, ← increment_ofNat, ← h.rejectedCancels]
  · rw [receivedBytes, List.map_append, List.sum_append, UInt64.ofNat_add, ← receivedBytes,
      ← h.inboundBytes, List.map_singleton, List.sum_singleton, UInt64.ofNat_toNat]

end MetricsInv

theorem metricsInv_finishRule : EngineRun.FinishRule MetricsInv where
  book h := h.book
  inbound h _ := h.congr rfl rfl
  occupancy h := h.occupancy
  handle h message := h.handle message
  finish h haccepted := h.finish haccepted

theorem metricsInv_rule : EngineRun.Rule fun s processed => MetricsInv s processed processed where
  start _ _ := ⟨rfl, rfl, rfl, rfl, rfl, rfl, rfl⟩
  inbound h _ := h.congr rfl rfl
  occupancy h := h.occupancy
  message h message := (h.handle message).finish
    (h.book ▸ (handleCommand_spec _ message.sessionId message.command).1)

/-! ## The high-water mark -/

theorem handleCommand_highWater {s : MatchingEngineService} (inv : s.book.Inv)
    (sessionId : UInt64) (c : Command) :
    (s.handleCommand sessionId c).1.metrics.inboundQueueHighWater =
      s.metrics.inboundQueueHighWater := by
  rw [handleCommand_handled inv]
  rfl

theorem finishMessage_highWater (s : MatchingEngineService) (message : InboundMessage)
    (accepted : Bool) :
    (s.finishMessage message accepted).metrics.inboundQueueHighWater =
      s.metrics.inboundQueueHighWater := by
  rw [finishMessage, recordCommandResult_eq]

theorem processOne_highWater {s : MatchingEngineService} (inv : s.book.Inv) :
    s.processOne.1.metrics.inboundQueueHighWater =
      max s.metrics.inboundQueueHighWater s.inbound.size := by
  unfold processOne
  dsimp only
  split
  · rfl
  · exact (finishMessage_highWater _ _ _).trans
      (handleCommand_highWater (s := { s.recordInboundOccupancy with inbound := _ }) inv _ _)

namespace EngineRun

/-- The mark after one more event. Only a call of `process_one` moves it. -/
theorem step_highWater {r : EngineRun} (inv : r.service.book.Inv) (event : EngineEvent) :
    (r.step event).service.metrics.inboundQueueHighWater =
      match event with
      | .receive _ => r.service.metrics.inboundQueueHighWater
      | .process => max r.service.metrics.inboundQueueHighWater r.service.inbound.size := by
  cases event with
  | receive message =>
    simp only [step]
    split <;> rfl
  | process => exact processOne_highWater inv

section

variable (marketDataFeed : Option (MarketDataFeed × MarketDataQueue))
  (eventCaptureFeed : Option (EventCaptureFeed × EventCaptureQueue))

/-- The mark reaches `n` when a call of `process_one` finds `n` messages in the queue. -/
theorem le_highWater_iff (events : List EngineEvent) {n : Nat} (hn : 0 < n) :
    n ≤ (run marketDataFeed eventCaptureFeed events).service.metrics.inboundQueueHighWater ↔
      ∃ before, before ++ [.process] <+: events ∧
        n ≤ (run marketDataFeed eventCaptureFeed before).service.inbound.size := by
  induction events using List.reverseRecOn with
  | nil =>
    refine iff_of_false (fun h => ?_) (fun ⟨before, h, _⟩ => by simp at h)
    have hzero : n ≤ 0 := h
    omega
  | append_singleton events event ih =>
    have hrun : run marketDataFeed eventCaptureFeed (events ++ [event]) =
        (run marketDataFeed eventCaptureFeed events).step event := Transducer.run_concat _ _ _ _
    have hmetrics := metricsInv_rule.run marketDataFeed eventCaptureFeed events
    rw [hrun, step_highWater hmetrics.inv]
    cases event with
    | receive message =>
      refine ih.trans (exists_congr fun before => and_congr_left fun _ => ?_)
      rw [List.prefix_concat_iff]
      exact ⟨.inr, fun h => h.resolve_left fun heq => by simpa using (List.append_inj' heq rfl).2⟩
    | process =>
      dsimp only
      rw [le_max_iff, ih]
      constructor
      · rintro (⟨before, hbefore, hle⟩ | hle)
        · exact ⟨before, hbefore.trans (List.prefix_append _ _), hle⟩
        · exact ⟨events, List.prefix_refl _, hle⟩
      · rintro ⟨before, hbefore, hle⟩
        rcases List.prefix_concat_iff.mp hbefore with heq | hbefore
        · obtain rfl := List.append_cancel_right heq
          exact .inr hle
        · exact .inl ⟨before, hbefore, hle⟩

/-- In every run the counters of the engine are the counts over the messages it has processed:
accepted and rejected commands and cancels by what the book returned, the executions of all
results, and the bytes that the commands came in. The high-water mark of the inbound queue is
the largest number of messages that a call of `process_one` has found there. -/
theorem metrics_exact (events : List EngineEvent) :
    let r := run marketDataFeed eventCaptureFeed events
    MetricsInv r.service r.processed r.processed ∧
    r.service.metrics.acceptedCommands + r.service.metrics.rejectedCommands =
      UInt64.ofNat r.processed.length ∧
    r.service.metrics.inboundQueueHighWater ≤ 4096 ∧
    ∀ n, 0 < n → (n ≤ r.service.metrics.inboundQueueHighWater ↔
      ∃ before, before ++ [.process] <+: events ∧
        n ≤ (run marketDataFeed eventCaptureFeed before).service.inbound.size) := by
  have h := metricsInv_rule.run marketDataFeed eventCaptureFeed events
  have hmark := fun n => le_highWater_iff marketDataFeed eventCaptureFeed events (n := n)
  refine ⟨h, ?_, ?_, hmark⟩
  · rw [h.acceptedCommands, h.rejectedCommands, ← UInt64.ofNat_add, countOf_accepted_rejected]
  · by_contra hgt
    obtain ⟨before, -, hle⟩ := (hmark 4097 (by omega)).mp (by omega)
    have hbounded := (run marketDataFeed eventCaptureFeed before).service.inbound.bounded
    rw [BoundedFifo.size] at hle
    omega

end

end EngineRun

end LowLatencyExchange
