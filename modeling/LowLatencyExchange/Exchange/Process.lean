import LowLatencyExchange.Engine.Feeds
import LowLatencyExchange.Exchange.RunGateway
import Mathlib.Tactic

/-!
# The process

`run_gateway` with all its threads. Beside the main thread and the engine thread there are a
recorder thread, if an event log was asked for, and a publisher thread. Behind the join of the
engine thread the main thread stops and joins the recorder and then the publisher, and returns
the exit status. The second `gateway.stop()` finds the gateway stopped.
-/
namespace LowLatencyExchange

open EventLog MarketData MatchingEngineService

inductive RecorderPhase where
  /-- At the condition of the first loop. -/
  | checking
  | recording
  | sleeping
  /-- In the second loop. -/
  | draining
  | flushing
  | exited
  deriving DecidableEq

/-- The recorder thread with the writer. -/
structure Recorder where
  phase : RecorderPhase
  writer : EventLogWriter

inductive PublisherPhase where
  | checking
  | publishing
  | sleeping
  | exited
  deriving DecidableEq

/-- The main thread behind `io_ctx.run()`. -/
inductive ClosingPhase where
  /-- Not yet behind `engine_thread.join()`. -/
  | engine
  /-- In `recorder_thread->join()`, behind `request_stop()`. -/
  | recorder
  /-- In `publisher_thread.join()`, behind `request_stop()`. -/
  | publisher
  | returned (status : Nat)
  deriving DecidableEq

structure GatewayProcess where
  gateway : GatewayRun
  recorder : Option Recorder
  publisher : PublisherPhase
  publishedBook : MarketDataBook
  closing : ClosingPhase

inductive ProcessEvent where
  /-- The main thread up to `engine_thread.join()`, or the engine thread. -/
  | gateway (event : GatewayEvent)
  /-- The recorder thread takes a step, with the outcome of the write if it writes. -/
  | recorder (failure : Option Nat)
  | publisher
  /-- The main thread takes a step behind `engine_thread.join()`. -/
  | closing
  deriving DecidableEq

def GatewayRun.setService (r : GatewayRun) (service : MatchingEngineService) : GatewayRun :=
  { r with exchange := { r.exchange with engine := { r.exchange.engine with service := service } } }

namespace GatewayProcess

def service (p : GatewayProcess) : MatchingEngineService := p.gateway.exchange.engine.service

def processed (p : GatewayProcess) : List InboundMessage := p.gateway.exchange.engine.processed

/-- The messages whose `process_one` has returned. -/
def finished (p : GatewayProcess) : List InboundMessage := p.gateway.exchange.finished

/-- `capture_metrics.dropped_commands` -/
def droppedCommands (p : GatewayProcess) : UInt64 :=
  p.service.eventCaptureFeed.elim 0 fun x => x.1.droppedCommands

def recorderStopRequested (p : GatewayProcess) : Bool := p.closing ≠ .engine

def publisherStopRequested (p : GatewayProcess) : Bool :=
  p.closing ≠ .engine ∧ p.closing ≠ .recorder

/-- One call of `drain_event_capture_one`, and where the recorder goes on. -/
def drainCapture (p : GatewayProcess) (writer : EventLogWriter) (failure : Option Nat)
    (written otherwise : RecorderPhase) : GatewayProcess :=
  match p.service.eventCaptureFeed with
  | none => p
  | some (feed, queue) =>
    let (queue, writer, result) := drainEventCaptureOne queue writer failure
    { p with
      gateway := p.gateway.setService { p.service with eventCaptureFeed := some (feed, queue) }
      recorder := some ⟨if result = some true then written else otherwise, writer⟩ }

def stepRecorder (p : GatewayProcess) (failure : Option Nat) : GatewayProcess :=
  match p.recorder with
  | none => p
  | some ⟨phase, writer⟩ =>
    match phase with
    | .checking =>
      let phase : RecorderPhase :=
        if p.recorderStopRequested = false ∧ writer.good = true then .recording else .draining
      { p with recorder := some ⟨phase, writer⟩ }
    | .recording => p.drainCapture writer failure .checking .sleeping
    | .sleeping => { p with recorder := some ⟨.checking, writer⟩ }
    | .draining =>
      if writer.good then p.drainCapture writer failure .draining .flushing
      else { p with recorder := some ⟨.flushing, writer⟩ }
    | .flushing => { p with recorder := some ⟨.exited, (writer.flush failure).1⟩ }
    | .exited => p

def stepPublisher (p : GatewayProcess) : GatewayProcess :=
  match p.publisher with
  | .checking =>
    { p with publisher := if p.publisherStopRequested then .exited else .publishing }
  | .publishing =>
    match p.service.marketDataFeed with
    | none => p
    | some (feed, queue) =>
      match publishOne queue p.publishedBook with
      | none => { p with publisher := .sleeping }
      | some (_, queue, book, applied) =>
        { p with
          gateway := p.gateway.setService { p.service with marketDataFeed := some (feed, queue) }
          publisher := if applied then .checking else .sleeping
          publishedBook := book }
  | .sleeping => { p with publisher := .checking }
  | .exited => p

/-- What `run_gateway` returns. -/
def exitStatus (p : GatewayProcess) : Nat :=
  match p.recorder with
  | none => 0
  | some recorder => if p.droppedCommands ≠ 0 ∨ recorder.writer.good = false then 1 else 0

def stepClosing (p : GatewayProcess) : GatewayProcess :=
  match p.closing with
  | .engine =>
    if p.gateway.main = .joined then
      { p with closing := if p.recorder.isSome then .recorder else .publisher }
    else p
  | .recorder =>
    if ∀ recorder ∈ p.recorder, recorder.phase = .exited then { p with closing := .publisher }
    else p
  | .publisher =>
    if p.publisher = .exited then { p with closing := .returned p.exitStatus } else p
  | .returned _ => p

def step (p : GatewayProcess) : ProcessEvent → GatewayProcess
  | .gateway event => { p with gateway := p.gateway.step event }
  | .recorder failure => p.stepRecorder failure
  | .publisher => p.stepPublisher
  | .closing => p.stepClosing

/-- `eventLog` says whether there is an `event_log_path`, whose file could be opened. -/
def start (eventLog : Bool) : GatewayProcess where
  gateway :=
    GatewayRun.start (some (MarketDataFeed.new 64, BoundedFifo.empty))
      (if eventLog then some (EventCaptureFeed.new, BoundedFifo.empty) else none)
  recorder := if eventLog then some ⟨.checking, EventLogWriter.new⟩ else none
  publisher := .checking
  publishedBook := MarketDataBook.empty
  closing := .engine

def run (eventLog : Bool) (events : List ProcessEvent) : GatewayProcess :=
  Transducer.run (fun p event => (step p event, ())) (start eventLog) events

end GatewayProcess

/-! ## The gateway's threads -/

/-- Behind the join of the engine thread, neither the main thread nor the engine thread takes a
step before it. -/
theorem GatewayRun.step_joined {r : GatewayRun} (h : r.Sound) (hmain : r.main = .joined)
    (event : GatewayEvent) : r.step event = r := by
  have hengine := h.joined hmain
  cases event with
  | accept stream => simp only [step, handle, hmain]
  | read session error => simp only [step, handle, hmain]
  | write session error => simp only [step, handle, hmain]
  | drain => simp only [step, drain, hmain]
  | signal => simp only [step, signal, hmain]
  | main => simp only [step, mainStep, hmain]
  | engine => simp only [step, engineStep, hengine]

/-- The feeds have nothing to do with the sessions. -/
theorem GatewayRun.Sound.setService {r : GatewayRun} (h : r.Sound) {s : MatchingEngineService}
    (hbook : s.book = r.exchange.engine.service.book)
    (hsessions : s.orderSessions = r.exchange.engine.service.orderSessions) :
    (r.setService s).Sound := by
  obtain ⟨⟨book, sessions, held⟩, calling, exited, joined⟩ := h
  rw [← hbook] at book
  rw [← hbook, ← hsessions] at sessions
  rw [← hbook] at held
  exact ⟨⟨book, sessions, held⟩, calling, exited, joined⟩

/-! ## The invariant -/

/-- Behind the first loop. -/
def RecorderPhase.stopping : RecorderPhase → Bool
  | .draining | .flushing | .exited => true
  | _ => false

/-- Behind the second loop. -/
def RecorderPhase.drained : RecorderPhase → Bool
  | .flushing | .exited => true
  | _ => false

theorem RecorderPhase.stopping_of_drained {phase : RecorderPhase} (h : phase.drained = true) :
    phase.stopping = true := by
  cases phase <;> first | rfl | cases h

namespace GatewayProcess

def writer (p : GatewayProcess) : Option EventLogWriter := p.recorder.map Recorder.writer

/-- The commands in the capture queue. -/
def undrained (p : GatewayProcess) : List CapturedCommand :=
  p.service.eventCaptureFeed.elim [] fun x => x.2.items

structure Inv (p : GatewayProcess) : Prop where
  sound : p.gateway.Sound
  feeds : Exchange.CallInv (fun s handled finished =>
    FeedsInv s handled finished p.writer p.publishedBook) p.gateway.exchange
  joined : p.closing ≠ .engine → p.gateway.main = .joined
  /-- As long as no write fails, the recorder stays in its first loop until the engine has
  captured its last command. -/
  stopping : ∀ r ∈ p.recorder, r.writer.good = true → r.phase.stopping = true →
    p.closing ≠ .engine
  drained : ∀ r ∈ p.recorder, r.writer.good = true → r.phase.drained = true → p.undrained = []
  recorderExited : p.publisherStopRequested = true → ∀ r ∈ p.recorder, r.phase = .exited
  publisherExited : ∀ status, p.closing = .returned status → p.publisher = .exited
  returned : ∀ status, p.closing = .returned status → status = p.exitStatus

theorem inv_start (eventLog : Bool) : (start eventLog).Inv where
  sound := GatewayRun.start_sound _ _
  feeds := by
    refine ⟨⟨metricsInv_rule.start _ _, fun w hw => ?_, _, _, _, rfl, MarketInv.start⟩,
      fun hanswering => by cases hanswering⟩
    cases eventLog with
    | false => cases hw
    | true =>
      obtain rfl := Option.some.inj hw
      exact ⟨[], _, _, rfl, CaptureInv.start⟩
  joined h := absurd rfl h
  stopping r hr _ h := by
    cases eventLog with
    | false => cases hr
    | true =>
      obtain rfl := Option.some.inj hr
      cases h
  drained r hr _ h := by
    cases eventLog with
    | false => cases hr
    | true =>
      obtain rfl := Option.some.inj hr
      cases h
  recorderExited h := by cases h
  publisherExited _ h := by cases h
  returned _ h := by cases h

namespace Inv

variable {p : GatewayProcess}

theorem gateway (h : p.Inv) (event : GatewayEvent) : (p.step (.gateway event)).Inv := by
  by_cases hmain : p.gateway.main = .joined
  · rw [step, GatewayRun.step_joined h.sound hmain]
    exact h
  · have hclosing : p.closing = .engine := by
      by_contra hne
      exact hmain (h.joined hne)
    have hfeeds := GatewayRun.step_call FeedsInv.rule h.feeds event
    refine ⟨h.sound.step event, hfeeds, fun hne => absurd hclosing hne, h.stopping, ?_, ?_, ?_, ?_⟩
    · intro r hr hgood hdrained
      exact absurd hclosing
        (h.stopping r hr hgood (RecorderPhase.stopping_of_drained hdrained))
    · intro hrequested
      simp [publisherStopRequested, step, hclosing] at hrequested
    · intro status hreturned
      cases hclosing.symm.trans hreturned
    · intro status hreturned
      cases hclosing.symm.trans hreturned

/-- The main thread waits for the recorder. -/
theorem recorder_running (h : p.Inv) {r : Recorder} (hr : p.recorder = some r)
    (hphase : r.phase ≠ .exited) : p.publisherStopRequested = false := by
  rw [← Bool.not_eq_true]
  exact fun hrequested => hphase (h.recorderExited hrequested r hr)

theorem not_returned (hrunning : p.publisherStopRequested = false) (status : Nat) :
    p.closing ≠ .returned status := by
  intro hclosing
  simp [publisherStopRequested, hclosing] at hrunning

/-- The recorder goes on without an access to the queue. -/
theorem setRecorder (h : p.Inv) {r r' : Recorder} (hr : p.recorder = some r)
    (hcapture : ∀ accepted captured feed queue, CaptureInv accepted captured feed queue r.writer →
      CaptureInv accepted captured feed queue r'.writer)
    (hgood : r'.writer.good = true → r.writer.good = true)
    (hstopping : r'.writer.good = true → r'.phase.stopping = true →
      r.phase.stopping = true ∨ p.closing ≠ .engine)
    (hdrained : r'.writer.good = true → r'.phase.drained = true → r.phase.drained = true)
    (hexited : r.phase ≠ .exited) : Inv { p with recorder := some r' } := by
  have hwriter : r.writer ∈ p.writer := by rw [writer, hr]; rfl
  have hrunning := h.recorder_running hr hexited
  have hfeeds := h.feeds.holds
  refine ⟨h.sound, ⟨⟨hfeeds.metrics, fun w hw => ?_, hfeeds.market⟩, h.feeds.answering⟩, h.joined,
    ?_, ?_, fun hrequested => ?_, fun status hclosing => ?_, fun status hclosing => ?_⟩
  · obtain rfl := Option.some.inj hw
    obtain ⟨captured, feed, queue, hfeed, hinv⟩ := hfeeds.capture _ hwriter
    exact ⟨captured, feed, queue, hfeed, hcapture _ _ _ _ hinv⟩
  · intro x hx hxgood hxstopping
    obtain rfl := Option.some.inj hx
    rcases hstopping hxgood hxstopping with hbefore | hclosing
    · exact h.stopping r hr (hgood hxgood) hbefore
    · exact hclosing
  · intro x hx hxgood hxdrained
    obtain rfl := Option.some.inj hx
    exact h.drained r hr (hgood hxgood) (hdrained hxgood hxdrained)
  · cases hrunning.symm.trans hrequested
  · exact absurd hclosing (not_returned hrunning status)
  · exact absurd hclosing (not_returned hrunning status)

/-- The recorder calls `drain_event_capture_one`, in either loop. -/
theorem drainCapture (h : p.Inv) {phase written otherwise : RecorderPhase}
    {writer : EventLogWriter} (hr : p.recorder = some ⟨phase, writer⟩) (failure : Option Nat)
    (hphase : phase = .recording ∧ written = .checking ∧ otherwise = .sleeping ∨
      phase = .draining ∧ written = .draining ∧ otherwise = .flushing) :
    (p.drainCapture writer failure written otherwise).Inv := by
  have hwriter : writer ∈ p.writer := by rw [GatewayProcess.writer, hr]; rfl
  have hexited : phase ≠ .exited := by
    rintro rfl
    rcases hphase with ⟨hcase, -⟩ | ⟨hcase, -⟩ <;> cases hcase
  have hrunning := h.recorder_running hr hexited
  have hfeeds := h.feeds.holds
  obtain ⟨captured, feed, queue, hfeed, hinv⟩ := hfeeds.capture writer hwriter
  have hresult := @CaptureInv.drain_result writer queue failure
  have hbefore := @CaptureInv.good_of_drain writer queue failure
  have hafter := hinv.drain failure
  unfold GatewayProcess.drainCapture
  rw [service, hfeed]
  dsimp only
  generalize drainEventCaptureOne queue writer failure = out at hresult hbefore hafter
  obtain ⟨queue', writer', result⟩ := out
  dsimp only at hresult hbefore hafter ⊢
  refine ⟨h.sound.setService rfl rfl,
    ⟨⟨hfeeds.metrics.congr rfl rfl, fun w hw => ?_, hfeeds.market⟩, h.feeds.answering⟩, h.joined,
    ?_, ?_, fun hrequested => ?_, fun status hclosing => ?_, fun status hclosing => ?_⟩
  · obtain rfl := Option.some.inj hw
    exact ⟨captured, feed, queue', rfl, hafter⟩
  · intro x hx hxgood hxstopping
    obtain rfl := Option.some.inj hx
    rcases hphase with ⟨rfl, rfl, rfl⟩ | ⟨rfl, rfl, rfl⟩
    · simp only at hxstopping
      split_ifs at hxstopping <;> cases hxstopping
    · exact h.stopping _ hr (hbefore hxgood) rfl
  · intro x hx hxgood hxdrained
    obtain rfl := Option.some.inj hx
    rcases hphase with ⟨rfl, rfl, rfl⟩ | ⟨rfl, rfl, rfl⟩
    · simp only at hxdrained
      split_ifs at hxdrained <;> cases hxdrained
    · simp only at hxdrained
      split_ifs at hxdrained with hwritten
      · cases hxdrained
      · rcases hresult hwritten with hempty | hbad
        · exact hempty
        · cases hbad.symm.trans hxgood
  · cases hrunning.symm.trans hrequested
  · exact absurd hclosing (not_returned hrunning status)
  · exact absurd hclosing (not_returned hrunning status)

theorem recorder (h : p.Inv) (failure : Option Nat) : (p.step (.recorder failure)).Inv := by
  rw [step, stepRecorder]
  cases hr : p.recorder with
  | none => exact h
  | some r =>
    obtain ⟨phase, writer⟩ := r
    cases phase with
    | checking =>
      dsimp only
      split_ifs with hcontinue
      · exact h.setRecorder hr (fun _ _ _ _ h => h) id (fun _ h => by cases h)
          (fun _ h => by cases h) (by simp)
      · refine h.setRecorder hr (fun _ _ _ _ h => h) id (fun hgood _ => .inr ?_)
          (fun _ h => by cases h) (by simp)
        simpa [recorderStopRequested, show writer.good = true from hgood] using hcontinue
    | recording => exact h.drainCapture hr failure (.inl ⟨rfl, rfl, rfl⟩)
    | sleeping =>
      exact h.setRecorder hr (fun _ _ _ _ h => h) id (fun _ h => by cases h)
        (fun _ h => by cases h) (by simp)
    | draining =>
      dsimp only
      split_ifs with hgood
      · exact h.drainCapture hr failure (.inr ⟨rfl, rfl, rfl⟩)
      · exact h.setRecorder hr (fun _ _ _ _ h => h) id (fun hgood' _ => absurd hgood' hgood)
          (fun hgood' _ => absurd hgood' hgood) (by simp)
    | flushing =>
      exact h.setRecorder hr (fun _ _ _ _ h => h.flush failure) CaptureInv.good_of_flush
        (fun _ _ => .inl rfl) (fun _ _ => rfl) (by simp)
    | exited => exact h

theorem publisher (h : p.Inv) : (p.step .publisher).Inv := by
  rw [step, stepPublisher]
  cases hpublisher : p.publisher with
  | checking =>
    refine { h with publisherExited := fun status hclosing => ?_ }
    have hexited := h.publisherExited status hclosing
    cases hpublisher.symm.trans hexited
  | publishing =>
    have hreturned : ∀ status, p.closing ≠ .returned status := by
      intro status hclosing
      cases hpublisher.symm.trans (h.publisherExited status hclosing)
    have hfeeds := h.feeds.holds
    obtain ⟨feed, queue, pipeline, hfeed, hmarket⟩ := hfeeds.market
    dsimp only
    rw [service, hfeed]
    dsimp only
    cases hpop : publishOne queue p.publishedBook with
    | none =>
      exact { h with publisherExited := fun status hclosing => absurd hclosing (hreturned status) }
    | some popped =>
      obtain ⟨event, queue', book, applied⟩ := popped
      obtain ⟨pipeline', hmarket'⟩ := hmarket.pop hpop
      exact ⟨h.sound.setService rfl rfl,
        ⟨⟨hfeeds.metrics.congr rfl rfl, hfeeds.capture, feed, queue', pipeline', rfl, hmarket'⟩,
          h.feeds.answering⟩,
        h.joined, h.stopping, h.drained, h.recorderExited,
        fun status hclosing => absurd hclosing (hreturned status),
        fun status hclosing => absurd hclosing (hreturned status)⟩
  | sleeping =>
    refine { h with publisherExited := fun status hclosing => ?_ }
    have hexited := h.publisherExited status hclosing
    cases hpublisher.symm.trans hexited
  | exited => exact h

theorem closing (h : p.Inv) : (p.step .closing).Inv := by
  rw [step, stepClosing]
  cases hclosing : p.closing with
  | engine =>
    dsimp only
    split_ifs with hjoined hsome
    · exact ⟨h.sound, h.feeds, fun _ => hjoined, fun _ _ _ _ => nofun, h.drained, nofun, nofun,
        nofun⟩
    · have hnone : p.recorder = none := by simpa using hsome
      refine ⟨h.sound, h.feeds, fun _ => hjoined, fun _ _ _ _ => nofun, h.drained,
        fun _ r hr => ?_, nofun, nofun⟩
      cases hnone.symm.trans hr
    · exact h
  | recorder =>
    dsimp only
    have hjoined := h.joined (by simp [hclosing])
    split_ifs with hexited
    · exact ⟨h.sound, h.feeds, fun _ => hjoined, fun _ _ _ _ => nofun, h.drained,
        fun _ => hexited, nofun, nofun⟩
    · exact h
  | publisher =>
    dsimp only
    have hjoined := h.joined (by simp [hclosing])
    have hexited := h.recorderExited (by simp [publisherStopRequested, hclosing])
    split_ifs with hpublisher
    · refine ⟨h.sound, h.feeds, fun _ => hjoined, fun _ _ _ _ => nofun, h.drained,
        fun _ => hexited, fun _ _ => hpublisher, fun status hstatus => ?_⟩
      cases hstatus
      rfl
    · exact h
  | returned status => exact h

theorem step (h : p.Inv) (event : ProcessEvent) : (p.step event).Inv := by
  cases event with
  | gateway event => exact h.gateway event
  | recorder failure => exact h.recorder failure
  | publisher => exact h.publisher
  | closing => exact h.closing

end Inv

theorem run_inv (eventLog : Bool) (events : List ProcessEvent) : (run eventLog events).Inv :=
  Transducer.run_invariant Inv (fun _ event h => h.step event) (inv_start eventLog) events

end GatewayProcess

end LowLatencyExchange
