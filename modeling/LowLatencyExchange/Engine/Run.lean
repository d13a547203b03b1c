import LowLatencyExchange.Engine.Basic
import LowLatencyExchange.Library.Transducer
import Mathlib.Tactic

/-!
# Runs of the engine

Messages arrive in the inbound queue and `process_one` takes them off, in any order of these
steps. A run records the messages that were processed. What depends on neither the inbound
queue nor its high-water mark is settled by the processed messages alone.
-/
namespace LowLatencyExchange

inductive EngineEvent where
  | receive (message : InboundMessage)
  | process

/-- The engine, and the messages it has processed. -/
structure EngineRun where
  service : MatchingEngineService
  processed : List InboundMessage

namespace EngineRun

/-- A message that finds the inbound queue full does not get in. -/
def step (r : EngineRun) : EngineEvent → EngineRun
  | .receive message =>
    match r.service.inbound.tryPush message with
    | none => r
    | some inbound => { r with service := { r.service with inbound := inbound } }
  | .process =>
    ⟨r.service.processOne.1, r.processed ++ (r.service.inbound.tryPop.map Prod.fst).toList⟩

section

variable (marketDataFeed : Option (MarketDataFeed × MarketDataQueue))
  (eventCaptureFeed : Option (EventCaptureFeed × EventCaptureQueue))

def start : EngineRun := ⟨MatchingEngineService.new marketDataFeed eventCaptureFeed, []⟩

def run (events : List EngineEvent) : EngineRun :=
  Transducer.run (fun r event => (step r event, ())) (start marketDataFeed eventCaptureFeed) events

end

/-- What a property of the engine and the processed messages needs to hold in every run. -/
structure Rule (inv : MatchingEngineService → List InboundMessage → Prop) : Prop where
  start : ∀ marketDataFeed eventCaptureFeed,
    inv (MatchingEngineService.new marketDataFeed eventCaptureFeed) []
  inbound : ∀ {s processed}, inv s processed → ∀ inbound, inv { s with inbound := inbound } processed
  occupancy : ∀ {s processed}, inv s processed → inv s.recordInboundOccupancy processed
  message : ∀ {s processed}, inv s processed → ∀ message,
    inv (s.processMessage message) (processed ++ [message])

/-- The same for a property that is to hold within a call of `process_one` as well, which looks at
neither the feeds nor the counters of the commands. -/
structure CallRule (inv : MatchingEngineService → List InboundMessage → Prop) : Prop where
  start : ∀ marketDataFeed eventCaptureFeed,
    inv (MatchingEngineService.new marketDataFeed eventCaptureFeed) []
  inbound : ∀ {s processed}, inv s processed → ∀ inbound, inv { s with inbound := inbound } processed
  occupancy : ∀ {s processed}, inv s processed → inv s.recordInboundOccupancy processed
  handle : ∀ {s processed}, inv s processed → ∀ message,
    inv (s.handleCommand message.sessionId message.command).1 (processed ++ [message])
  finish : ∀ {s processed}, inv s processed → ∀ message accepted,
    inv (s.finishMessage message accepted) processed

/-- And for a property that tells the messages whose commands were handled from those whose calls
of `process_one` have returned. -/
structure FinishRule
    (inv : MatchingEngineService → List InboundMessage → List InboundMessage → Prop) : Prop where
  book : ∀ {s handled finished}, inv s handled finished →
    s.book = OrderBook.run (handled.map InboundMessage.command)
  inbound : ∀ {s handled finished}, inv s handled finished → ∀ inbound,
    inv { s with inbound := inbound } handled finished
  occupancy : ∀ {s handled finished}, inv s handled finished →
    inv s.recordInboundOccupancy handled finished
  handle : ∀ {s finished}, inv s finished finished → ∀ message,
    inv (s.handleCommand message.sessionId message.command).1 (finished ++ [message]) finished
  finish : ∀ {s finished message accepted}, inv s (finished ++ [message]) finished →
    accepted =
      ((OrderBook.run (finished.map InboundMessage.command)).step message.command).2.accepted →
    inv (s.finishMessage message accepted) (finished ++ [message]) (finished ++ [message])

variable {inv : MatchingEngineService → List InboundMessage → Prop}

theorem CallRule.rule (rule : CallRule inv) : Rule inv where
  start := rule.start
  inbound := rule.inbound
  occupancy := rule.occupancy
  message h message := rule.finish (rule.handle h message) message _

theorem Rule.step (rule : Rule inv) {r : EngineRun} (h : inv r.service r.processed)
    (event : EngineEvent) : inv (r.step event).service (r.step event).processed := by
  cases event with
  | receive message =>
    simp only [EngineRun.step]
    split
    · exact h
    · exact rule.inbound h _
  | process =>
    unfold EngineRun.step MatchingEngineService.processOne
    have hpop : r.service.recordInboundOccupancy.inbound.tryPop = r.service.inbound.tryPop := rfl
    dsimp only
    rw [hpop]
    cases r.service.inbound.tryPop with
    | none => simpa using rule.occupancy h
    | some popped => exact rule.message (rule.inbound (rule.occupancy h) popped.2) popped.1

/-- The invariant rule for runs of the engine. -/
theorem Rule.run (rule : Rule inv) (marketDataFeed : Option (MarketDataFeed × MarketDataQueue))
    (eventCaptureFeed : Option (EventCaptureFeed × EventCaptureQueue))
    (events : List EngineEvent) :
    inv (EngineRun.run marketDataFeed eventCaptureFeed events).service
      (EngineRun.run marketDataFeed eventCaptureFeed events).processed :=
  Transducer.run_invariant (fun r : EngineRun => inv r.service r.processed)
    (fun _ event h => rule.step h event) (rule.start marketDataFeed eventCaptureFeed) events

/-! ## The messages of a run -/

def received : EngineEvent → Option InboundMessage
  | .receive message => some message
  | .process => none

theorem processOne_inbound (s : MatchingEngineService) :
    s.processOne.1.inbound.items = s.inbound.items.tail := by
  unfold MatchingEngineService.processOne
  dsimp only
  split
  · next hpop =>
    have hitems : s.inbound.items = [] := BoundedFifo.items_of_tryPop_none hpop
    change s.inbound.items = s.inbound.items.tail
    rw [hitems, List.tail_nil]
  · next message inbound hpop =>
    have hitems : s.inbound.items = message :: inbound.items := BoundedFifo.items_of_tryPop hpop
    rw [(MatchingEngineService.processMessage_spec _ message).2.1, hitems, List.tail_cons]

theorem head_of_tryPop (q : InboundQueue) :
    (q.tryPop.map Prod.fst).toList ++ q.items.tail = q.items := by
  cases hpop : q.tryPop with
  | none => simp [BoundedFifo.items_of_tryPop_none hpop]
  | some popped =>
    obtain ⟨message, rest⟩ := popped
    simp [BoundedFifo.items_of_tryPop hpop]

/-- The messages that were processed and those that wait were received in this order. -/
theorem run_received (marketDataFeed : Option (MarketDataFeed × MarketDataQueue))
    (eventCaptureFeed : Option (EventCaptureFeed × EventCaptureQueue))
    (events : List EngineEvent) :
    ((run marketDataFeed eventCaptureFeed events).processed ++
      (run marketDataFeed eventCaptureFeed events).service.inbound.items).Sublist
      (events.filterMap received) := by
  induction events using List.reverseRecOn with
  | nil => exact List.Sublist.refl []
  | append_singleton events event ih =>
    have hrun : run marketDataFeed eventCaptureFeed (events ++ [event]) =
        (run marketDataFeed eventCaptureFeed events).step event := Transducer.run_concat _ _ _ _
    rw [hrun, List.filterMap_append]
    generalize run marketDataFeed eventCaptureFeed events = r at ih
    cases event with
    | receive message =>
      simp only [step]
      split
      · exact ih.trans (List.sublist_append_left _ _)
      · next inbound hpush =>
        rw [BoundedFifo.items_of_tryPush hpush, ← List.append_assoc]
        exact ih.append (List.Sublist.refl [message])
    | process =>
      have hhead := head_of_tryPop r.service.inbound
      simp only [step]
      rw [processOne_inbound, List.append_assoc, hhead]
      exact ih.trans (List.sublist_append_left _ _)

end EngineRun

end LowLatencyExchange
