import LowLatencyExchange.Exchange.Process
import LowLatencyExchange.Exchange.Shutdown
import LowLatencyExchange.Library.Fairness
import Mathlib.Tactic

/-!
# What the process leaves behind

The exit status tells whether the event log is whole: with status 0 a replay of the log gives the
book of the engine. Before that, and whatever happens to the process, the log holds commands that
the engine has accepted, in order, and a part of one more. The counters of dropped commands and
events are 64-bit words, which say that nothing was dropped as long as they have not wrapped. The process returns on every fair
schedule once it was told to stop, unless the outbound queue cannot take what is left to answer.
-/
namespace LowLatencyExchange

open EventLog MarketData MatchingEngineService

/-- A write of the recorder fails. -/
def ProcessEvent.fails : ProcessEvent → Bool
  | .recorder (some _) => true
  | _ => false

/-- A bound on the steps of the recorder to its end, when it is requested to stop. -/
def RecorderPhase.stepsLeft (undrained : Nat) : RecorderPhase → Nat
  | .recording => undrained + 5
  | .sleeping => undrained + 4
  | .checking => undrained + 3
  | .draining => undrained + 2
  | .flushing => 1
  | .exited => 0

def PublisherPhase.stepsLeft : PublisherPhase → Nat
  | .publishing => 3
  | .sleeping => 2
  | .checking => 1
  | .exited => 0

/-- Who takes a step. The main thread is two of these, up to the join of the engine thread and
behind it. -/
inductive ProcessThread where
  | handlers
  | main
  | engine
  | recorder
  | publisher
  | closing
  deriving DecidableEq

def ProcessEvent.thread : ProcessEvent → ProcessThread
  | .gateway .main => .main
  | .gateway .engine => .engine
  | .gateway _ => .handlers
  | .recorder _ => .recorder
  | .publisher => .publisher
  | .closing => .closing

namespace GatewayProcess

variable {p : GatewayProcess}

/-! ## The recorder without failures -/

theorem append_good (writer : EventLogWriter) (command : Command) :
    (writer.append command none).1.good = writer.good := by
  unfold EventLogWriter.append
  rw [encodeCommand_eq]
  cases hgood : writer.good <;> simp [hgood]

theorem drain_good (queue : EventCaptureQueue) (writer : EventLogWriter) :
    (drainEventCaptureOne queue writer none).2.1.good = writer.good := by
  unfold drainEventCaptureOne
  cases queue.tryPop with
  | none => rfl
  | some popped => exact append_good writer popped.1

theorem flush_good (writer : EventLogWriter) : (writer.flush none).1 = writer := by
  unfold EventLogWriter.flush
  split_ifs <;> rfl

theorem stepPublisher_recorder (p : GatewayProcess) : p.stepPublisher.recorder = p.recorder := by
  unfold stepPublisher
  split
  · rfl
  · split
    · rfl
    · split <;> rfl
  · rfl
  · rfl

theorem stepClosing_recorder (p : GatewayProcess) : p.stepClosing.recorder = p.recorder := by
  unfold stepClosing
  split <;> first | rfl | (split_ifs <;> rfl)

/-- The recorder is there in every state, or in none, and its writer stays good unless a write
fails. -/
theorem step_recorder (p : GatewayProcess) (event : ProcessEvent) :
    (p.step event).recorder.isSome = p.recorder.isSome ∧
    (event.fails = false → (∀ r ∈ p.recorder, r.writer.good = true) →
      ∀ r ∈ (p.step event).recorder, r.writer.good = true) := by
  cases event with
  | gateway event => exact ⟨rfl, fun _ h => h⟩
  | publisher =>
    rw [step, stepPublisher_recorder]
    exact ⟨rfl, fun _ h => h⟩
  | closing =>
    rw [step, stepClosing_recorder]
    exact ⟨rfl, fun _ h => h⟩
  | recorder failure =>
    rw [step, stepRecorder]
    cases hr : p.recorder with
    | none => exact ⟨by simp [hr], fun _ _ r h => by simp [hr] at h⟩
    | some r =>
      obtain ⟨phase, writer⟩ := r
      have hdrain : ∀ written otherwise,
          (p.drainCapture writer failure written otherwise).recorder.isSome = true ∧
          (failure = none → writer.good = true →
            ∀ r ∈ (p.drainCapture writer failure written otherwise).recorder,
              r.writer.good = true) := by
        intro written otherwise
        unfold drainCapture
        cases p.service.eventCaptureFeed with
        | none =>
          rw [hr]
          exact ⟨rfl, fun _ hgood r h => by obtain rfl := Option.some.inj h; exact hgood⟩
        | some x =>
          refine ⟨rfl, fun hnone hgood r h => ?_⟩
          obtain rfl := Option.some.inj h
          rw [hnone]
          exact (drain_good x.2 writer).trans hgood
      have hnone : (ProcessEvent.recorder failure).fails = false → failure = none := by
        cases failure with
        | none => exact fun _ => rfl
        | some kept =>
          intro hf
          cases hf
      have hkeep : ∀ phase : RecorderPhase, writer.good = true →
          ∀ r ∈ some (⟨phase, writer⟩ : Recorder), r.writer.good = true := by
        intro phase hgood r h
        obtain rfl := Option.some.inj h
        exact hgood
      have hwriter : (∀ r ∈ some (⟨phase, writer⟩ : Recorder), r.writer.good = true) →
          writer.good = true := fun h => h _ rfl
      cases phase with
      | checking => exact ⟨rfl, fun _ h => hkeep _ (hwriter h)⟩
      | recording => exact ⟨(hdrain _ _).1, fun hf h => (hdrain _ _).2 (hnone hf) (hwriter h)⟩
      | sleeping => exact ⟨rfl, fun _ h => hkeep _ (hwriter h)⟩
      | draining =>
        dsimp only
        split_ifs
        · exact ⟨(hdrain _ _).1, fun hf h => (hdrain _ _).2 (hnone hf) (hwriter h)⟩
        · exact ⟨rfl, fun _ h => hkeep _ (hwriter h)⟩
      | flushing =>
        refine ⟨rfl, fun hf h => ?_⟩
        dsimp only
        rw [hnone hf, flush_good]
        exact hkeep _ (hwriter h)
      | exited =>
        rw [hr]
        exact ⟨rfl, fun _ h => h⟩

theorem run_recorder (eventLog : Bool) (events : List ProcessEvent) :
    (run eventLog events).recorder.isSome = eventLog ∧
    ((∀ event ∈ events, event.fails = false) →
      ∀ r ∈ (run eventLog events).recorder, r.writer.good = true) := by
  induction events using List.reverseRecOn with
  | nil =>
    cases eventLog with
    | false => exact ⟨rfl, nofun⟩
    | true =>
      refine ⟨rfl, fun _ r h => ?_⟩
      obtain rfl := Option.some.inj h
      rfl
  | append_singleton events event ih =>
    obtain ⟨hsome, hgood⟩ := step_recorder (run eventLog events) event
    rw [run, Transducer.run_concat]
    refine ⟨hsome.trans ih.1, fun hall => ?_⟩
    exact hgood (hall event (by simp)) (ih.2 fun e he => hall e (by simp [he]))

/-! ## The log -/

theorem length_flatMap_lt {A B : Type*} {f : A → List B} (hf : ∀ a, 0 < (f a).length)
    {l l' : List A} (h : l.Sublist l') (hlt : l.length < l'.length) :
    (l.flatMap f).length < (l'.flatMap f).length := by
  induction h with
  | slnil => cases hlt
  | @cons l l' a hsub ih =>
    have hle := (hsub.flatMap f).length_le
    have ha := hf a
    rw [List.flatMap_cons, List.length_append]
    omega
  | @cons_cons l l' a hsub ih =>
    have := ih (by simpa using hlt)
    simp only [List.flatMap_cons, List.length_append]
    omega

theorem length_commandRecord_pos (command : Command) : 0 < (commandRecord command).length := by
  rw [commandRecord_eq, List.length_append, length_commandHeader, kRecordHeaderSize]
  omega

/-- The commands that the engine has accepted, and captured or dropped. -/
def accepted (p : GatewayProcess) : List Command :=
  OrderBook.accepted (p.finished.map InboundMessage.command)

theorem Inv.capture (h : p.Inv) {w : EventLogWriter} (hw : w ∈ p.writer) :
    ∃ captured feed queue, p.service.eventCaptureFeed = some (feed, queue) ∧
      p.droppedCommands = feed.droppedCommands ∧ p.undrained = queue.items ∧
      CaptureInv p.accepted captured feed queue w := by
  obtain ⟨captured, feed, queue, hfeed, hinv⟩ := h.feeds.holds.capture w hw
  refine ⟨captured, feed, queue, hfeed, ?_, ?_, hinv⟩
  · rw [droppedCommands, service, hfeed]
    rfl
  · rw [undrained, service, hfeed]
    rfl

/-- In every state of every run the log holds records of accepted commands, in the order
accepted and but for those dropped, which are counted modulo `2 ^ 64`, and at most a part of one
more. If none of fewer than `2 ^ 64` was dropped, any part of the log replays to the book that its
whole records lead to. -/
theorem log_sound (eventLog : Bool) (events : List ProcessEvent) :
    ∀ w ∈ (run eventLog events).writer,
      (∃ captured : List Command, captured.Sublist (run eventLog events).accepted ∧
        (run eventLog events).droppedCommands =
          UInt64.ofNat ((run eventLog events).accepted.length - captured.length) ∧
        w.file <+: captured.flatMap commandRecord) ∧
      ((run eventLog events).accepted.length < 2 ^ 64 →
        (run eventLog events).droppedCommands = 0 → ∀ disk, disk <+: w.file →
        ∃ k, Whole (run eventLog events).accepted disk.length k ∧
          replay disk = (⟨OrderBook.run ((run eventLog events).accepted.take k), UInt64.ofNat k⟩,
            cutError (disk.length - recordStart (run eventLog events).accepted k))) := by
  intro w hw
  obtain ⟨captured, feed, queue, -, hdropped, -, hinv⟩ := (run_inv eventLog events).capture hw
  rw [hdropped]
  exact ⟨⟨captured, hinv.sublist, hinv.droppedCommands, hinv.file⟩,
    fun hlt hnone disk hdisk => hinv.replay_part hlt hnone hdisk⟩

/-! ## The exit status -/

theorem exitStatus_of_recorder {r : Recorder} (hr : p.recorder = some r) :
    p.exitStatus = if p.droppedCommands ≠ 0 ∨ r.writer.good = false then 1 else 0 := by
  rw [exitStatus, hr]

/-- A process that returns 0 has written a log that replays to the engine's book, with all
commands that it has accepted, if these are fewer than `2 ^ 64`. If it returns 1, the counter of
dropped commands is not 0 or a write failed; and it returns 1 if that counter is not 0, and then
the log lacks a record. -/
theorem exit_status (eventLog : Bool) (events : List ProcessEvent) {status : Nat}
    (hreturned : (run eventLog events).closing = .returned status) :
    (run eventLog events).writer.isSome = eventLog ∧
    (eventLog = false → status = 0) ∧
    ∀ w ∈ (run eventLog events).writer,
      (status = 0 ∧ ((run eventLog events).accepted.length < 2 ^ 64 →
        replayEventLog (some w.file) =
          ⟨none, (run eventLog events).service.metrics.acceptedCommands,
            (run eventLog events).service.book.stateDigest⟩) ∨
      status = 1 ∧ ((run eventLog events).droppedCommands ≠ 0 ∨
        ∃ event ∈ events, event.fails = true)) ∧
      ((run eventLog events).droppedCommands ≠ 0 → status = 1 ∧
        w.file.length < ((run eventLog events).accepted.flatMap commandRecord).length) := by
  have h := run_inv eventLog events
  obtain ⟨hsome, hgood⟩ := run_recorder eventLog events
  generalize run eventLog events = p at hreturned h hsome hgood ⊢
  have hstatus := h.returned status hreturned
  refine ⟨?_, fun hnone => ?_, fun w hw => ?_⟩
  · rw [writer, Option.isSome_map, hsome]
  · have hrecorder : p.recorder = none := by simpa [hnone] using hsome
    rw [hstatus, exitStatus, hrecorder]
  obtain ⟨r, hr, rfl⟩ := Option.map_eq_some_iff.mp hw
  obtain ⟨captured, feed, queue, hfeed, hdropped, hundrained, hinv⟩ := h.capture hw
  rw [exitStatus_of_recorder hr] at hstatus
  have hexited := h.recorderExited (by simp [publisherStopRequested, hreturned]) r hr
  refine ⟨?_, fun hlost => ⟨by rw [hstatus, if_pos (.inl hlost)], ?_⟩⟩
  · split_ifs at hstatus with hincomplete
    · refine .inr ⟨hstatus, hincomplete.imp_right fun hbad => ?_⟩
      by_contra hnone
      have := hgood (fun event hevent => by
        by_contra hfails
        exact hnone ⟨event, hevent, by simpa using hfails⟩) r hr
      cases hbad.symm.trans this
    · obtain ⟨hnodrop, hbad⟩ := not_or.mp hincomplete
      have hwriter : r.writer.good = true := by simpa using hbad
      have hdrained := h.drained r hr hwriter (by rw [hexited]; rfl)
      refine .inl ⟨hstatus, fun hlt => ?_⟩
      have hreplay := hinv.replay_whole hlt (by rw [← hdropped]; simpa using hnodrop) hwriter
        (hundrained.symm.trans hdrained)
      have hmetrics := h.feeds.holds.metrics
      -- the engine thread has ended, so that no call is running
      have hidle := h.sound.idle_of_joined (h.joined (by simp [hreturned]))
      have hfinished := Exchange.finished_of_not_handling (e := p.gateway.exchange)
        (by rw [hidle]; rfl)
      rw [← hfinished] at hmetrics
      have hbook : p.service.book = OrderBook.run (p.finished.map InboundMessage.command) :=
        hmetrics.book
      have hcount : p.service.metrics.acceptedCommands =
          UInt64.ofNat (countOf p.finished fun x => x.2.accepted) := hmetrics.acceptedCommands
      rw [replayEventLog, hreplay, ← hbook, hcount, countOf, ← OrderBook.length_accepted]
  · have hlost' : captured.length < p.accepted.length := by
      by_contra hle
      rw [hdropped, hinv.droppedCommands, Nat.sub_eq_zero_of_le (not_lt.mp hle)] at hlost
      exact hlost rfl
    have hlt := length_flatMap_lt length_commandRecord_pos hinv.sublist hlost'
    have hle := hinv.file.length_le
    omega

/-- A turn of each thread. -/
def eachOnce : List ProcessEvent :=
  [.gateway .main, .gateway .engine, .recorder none, .publisher, .closing]

/-- A client sends an order, and the process is told to stop when the engine is about to take
it. -/
def orderShutdown : List ProcessEvent :=
  [.gateway (.accept (orderStream
      ⟨SequenceNumber.of 1, OrderId.of 10, .sell, .limit, Quantity.of 5, some (Price.of 100)⟩)),
    .gateway (.read 0 false), .gateway (.read 0 false), .gateway .engine, .gateway .signal] ++
    (List.replicate 16 eachOnce).flatten

theorem orderShutdown_replays : (run true orderShutdown).closing = .returned 0 ∧
    ∀ w ∈ (run true orderShutdown).writer, replayEventLog (some w.file) =
      ⟨none, 1, (run true orderShutdown).service.book.stateDigest⟩ := by
  have hreturned : (run true orderShutdown).closing = .returned 0 := by decide +kernel
  have haccepted : (run true orderShutdown).service.metrics.acceptedCommands = 1 := by
    decide +kernel
  refine ⟨hreturned, fun w hw => ?_⟩
  obtain ⟨⟨-, hreplay⟩ | ⟨hone, -⟩, -⟩ := (exit_status true orderShutdown hreturned).2.2 w hw
  · rw [hreplay (by decide +kernel), haccepted]
  · cases hone

theorem orderShutdown_logged : ∃ w ∈ (run true orderShutdown).writer, ∃ k,
    Whole (run true orderShutdown).accepted 50 k ∧ (replay (w.file.take 50)).2 =
      cutError (50 - recordStart (run true orderShutdown).accepted k) := by
  have hlength : ∀ w ∈ (run true orderShutdown).writer, 50 ≤ w.file.length := by decide +kernel
  have hsome : (run true orderShutdown).writer.isSome = true := by decide +kernel
  obtain ⟨w, hw⟩ := Option.isSome_iff_exists.mp hsome
  obtain ⟨-, hreplay⟩ := log_sound true orderShutdown w hw
  obtain ⟨k, hwhole, hresult⟩ := hreplay (by decide +kernel) (by decide +kernel) _
    (List.take_prefix 50 w.file)
  rw [List.length_take, Nat.min_eq_left (hlength w hw)] at hwhole hresult
  exact ⟨w, hw, k, hwhole, by rw [hresult]⟩

/-! ## The end of the process -/

/-- What the recorder and the publisher leave of the rest. -/
structure Aside (p p' : GatewayProcess) : Prop where
  closing : p'.closing = p.closing
  main : p'.gateway.main = p.gateway.main
  engine : p'.gateway.engine = p.gateway.engine
  stepsLeft : p'.gateway.stepsLeft = p.gateway.stepsLeft
  backlog : p'.gateway.exchange.backlog = p.gateway.exchange.backlog

theorem Aside.refl (p : GatewayProcess) : Aside p p := ⟨rfl, rfl, rfl, rfl, rfl⟩

theorem aside_drainCapture (p : GatewayProcess) (writer : EventLogWriter) (failure : Option Nat)
    (written otherwise : RecorderPhase) :
    Aside p (p.drainCapture writer failure written otherwise) := by
  unfold drainCapture
  split <;> exact ⟨rfl, rfl, rfl, rfl, rfl⟩

theorem aside_recorder (p : GatewayProcess) (failure : Option Nat) :
    Aside p (p.stepRecorder failure) := by
  unfold stepRecorder
  split
  · exact Aside.refl p
  · split
    · exact ⟨rfl, rfl, rfl, rfl, rfl⟩
    · exact aside_drainCapture ..
    · exact ⟨rfl, rfl, rfl, rfl, rfl⟩
    · split_ifs
      · exact aside_drainCapture ..
      · exact ⟨rfl, rfl, rfl, rfl, rfl⟩
    · exact ⟨rfl, rfl, rfl, rfl, rfl⟩
    · exact Aside.refl p

/-- The publisher leaves the recorder and its queue alone as well. -/
theorem aside_publisher (p : GatewayProcess) :
    Aside p p.stepPublisher ∧ p.stepPublisher.recorder = p.recorder ∧
      p.stepPublisher.undrained = p.undrained := by
  unfold stepPublisher
  split
  · exact ⟨⟨rfl, rfl, rfl, rfl, rfl⟩, rfl, rfl⟩
  · split
    · exact ⟨Aside.refl p, rfl, rfl⟩
    · split <;> exact ⟨⟨rfl, rfl, rfl, rfl, rfl⟩, rfl, rfl⟩
  · exact ⟨⟨rfl, rfl, rfl, rfl, rfl⟩, rfl, rfl⟩
  · exact ⟨Aside.refl p, rfl, rfl⟩

def recorderStepsLeft (p : GatewayProcess) : Nat :=
  p.recorder.elim 0 fun r => RecorderPhase.stepsLeft p.undrained.length r.phase

/-- Draining takes a command off the queue, or finds none. -/
theorem drainCapture_stepsLeft (h : p.Inv) {phase written otherwise : RecorderPhase}
    {writer : EventLogWriter} (hr : p.recorder = some ⟨phase, writer⟩) (failure : Option Nat)
    (hphase : phase = .recording ∧ written = .checking ∧ otherwise = .sleeping ∨
      phase = .draining ∧ written = .draining ∧ otherwise = .flushing) :
    (p.drainCapture writer failure written otherwise).recorderStepsLeft < p.recorderStepsLeft := by
  have hwriter : writer ∈ p.writer := by rw [GatewayProcess.writer, hr]; rfl
  obtain ⟨captured, feed, queue, hfeed, -, hundrained, -⟩ := h.capture hwriter
  rw [recorderStepsLeft, recorderStepsLeft, hr, hundrained]
  unfold drainCapture
  rw [hfeed]
  simp only [undrained, service, GatewayRun.setService, Option.elim_some]
  cases hpop : queue.tryPop with
  | none =>
    simp only [drainEventCaptureOne, hpop, reduceCtorEq, if_false]
    rcases hphase with ⟨rfl, rfl, rfl⟩ | ⟨rfl, rfl, rfl⟩ <;> simp [RecorderPhase.stepsLeft]
  | some popped =>
    have hitems := congrArg List.length (BoundedFifo.items_of_tryPop hpop)
    rw [List.length_cons] at hitems
    simp only [drainEventCaptureOne, hpop]
    rcases hphase with ⟨rfl, rfl, rfl⟩ | ⟨rfl, rfl, rfl⟩ <;> split_ifs <;>
      simp only [RecorderPhase.stepsLeft] <;> omega

/-- A recorder that is requested to stop gets on. -/
theorem recorder_stepsLeft (h : p.Inv) (hstop : p.recorderStopRequested = true) {r : Recorder}
    (hr : p.recorder = some r) (hexited : r.phase ≠ .exited) (failure : Option Nat) :
    (p.stepRecorder failure).recorderStepsLeft < p.recorderStepsLeft := by
  obtain ⟨phase, writer⟩ := r
  unfold stepRecorder
  rw [hr]
  cases phase with
  | checking =>
    simp [recorderStepsLeft, undrained, service, hr, hstop, RecorderPhase.stepsLeft]
  | recording => exact drainCapture_stepsLeft h hr failure (.inl ⟨rfl, rfl, rfl⟩)
  | sleeping => simp [recorderStepsLeft, undrained, service, hr, RecorderPhase.stepsLeft]
  | draining =>
    dsimp only
    split_ifs
    · exact drainCapture_stepsLeft h hr failure (.inr ⟨rfl, rfl, rfl⟩)
    · simp [recorderStepsLeft, hr, RecorderPhase.stepsLeft]
  | flushing => simp [recorderStepsLeft, hr, RecorderPhase.stepsLeft]
  | exited => exact absurd rfl hexited

theorem publisher_stepsLeft (hstop : p.publisherStopRequested = true)
    (hexited : p.publisher ≠ .exited) (h : p.Inv) :
    p.stepPublisher.publisher.stepsLeft < p.publisher.stepsLeft := by
  unfold stepPublisher
  cases hpublisher : p.publisher with
  | checking => simp [hstop, PublisherPhase.stepsLeft]
  | publishing =>
    obtain ⟨feed, queue, pipeline, hfeed, -⟩ := h.feeds.holds.market
    dsimp only
    rw [service, hfeed]
    dsimp only
    cases publishOne queue p.publishedBook with
    | none => simp [PublisherPhase.stepsLeft]
    | some popped =>
      dsimp only
      split_ifs <;> simp [PublisherPhase.stepsLeft]
  | sleeping => simp [PublisherPhase.stepsLeft]
  | exited => exact absurd hpublisher hexited

/-- More steps than a thread takes that the others wait for: the engine thread to its end, the
recorder with 4096 commands to drain, or the publisher. -/
def threadSteps : Nat := GatewayRun.engineSteps + 1

/-- More steps than the process takes behind the signal. The main thread waits for three threads,
and takes steps before and after that count as those of two more. -/
def shutdownSteps : Nat := 5 * threadSteps

/-- What is left to do, counted in steps. -/
def stepsLeft (p : GatewayProcess) : Nat :=
  match p.closing with
  | .engine =>
    match p.gateway.main with
    | .joined => 3 * threadSteps
    | .joining => 4 * threadSteps + p.gateway.stepsLeft
    | _ => 5 * threadSteps
  | .recorder => 2 * threadSteps + p.recorderStepsLeft
  | .publisher => threadSteps + p.publisher.stepsLeft
  | .returned _ => 0

/-- The thread that the others wait for. -/
def awaited (p : GatewayProcess) : ProcessThread :=
  match p.closing with
  | .engine =>
    match p.gateway.main with
    | .joined => .closing
    | .joining => if p.gateway.engine = .exited then .main else .engine
    | _ => .main
  | .recorder => if ∀ r ∈ p.recorder, r.phase = .exited then .closing else .recorder
  | .publisher => if p.publisher = .exited then .closing else .publisher
  | .returned _ => .closing

/-- The signal handler has run, and the outbound queue can take what is left to answer. -/
structure Ending (p : GatewayProcess) : Prop where
  inv : p.Inv
  signalled : p.gateway.main.signalled = true
  backlog : p.gateway.exchange.backlog ≤ 4096

def Returned (p : GatewayProcess) : Prop := ∃ status, p.closing = .returned status

/-- A turn lowers what is left to do, or leaves it and the awaited thread what they are. -/
def Gets (p p' : GatewayProcess) (thread : ProcessThread) : Prop :=
  p'.stepsLeft < p.stepsLeft ∨
    p'.stepsLeft = p.stepsLeft ∧ p'.awaited = p.awaited ∧ thread ≠ p.awaited

theorem stepClosing_gateway (p : GatewayProcess) : p.stepClosing.gateway = p.gateway := by
  unfold stepClosing
  split <;> first | rfl | (split_ifs <;> rfl)

theorem step_ending (h : p.Ending) (event : ProcessEvent) : (p.step event).Ending := by
  refine ⟨h.inv.step event, ?_, ?_⟩
  · cases event with
    | gateway event => exact (GatewayRun.step_backlog h.inv.sound h.signalled event).1
    | recorder failure => exact (aside_recorder p failure).main ▸ h.signalled
    | publisher => exact (aside_publisher p).1.main ▸ h.signalled
    | closing => exact stepClosing_gateway p ▸ h.signalled
  · cases event with
    | gateway event =>
      exact (GatewayRun.step_backlog h.inv.sound h.signalled event).2 ▸ h.backlog
    | recorder failure => exact (aside_recorder p failure).backlog ▸ h.backlog
    | publisher => exact (aside_publisher p).1.backlog ▸ h.backlog
    | closing => exact stepClosing_gateway p ▸ h.backlog

/-! ### The turns -/

/-- Up to the join of the engine thread, the others wait for the main thread or the engine. -/
theorem awaited_engine (h : p.closing = .engine) :
    p.awaited = .main ∨ p.awaited = .engine ∨ p.awaited = .closing := by
  simp only [awaited, h]
  split
  · exact .inr (.inr rfl)
  · split_ifs
    · exact .inl rfl
    · exact .inr (.inl rfl)
  · exact .inl rfl

theorem Aside.gets {p' : GatewayProcess} (h : Aside p p') (hengine : p.closing = .engine)
    {thread : ProcessThread} (hthread : thread = .recorder ∨ thread = .publisher) :
    Gets p p' thread := by
  refine .inr ⟨?_, ?_, ?_⟩
  · simp only [GatewayProcess.stepsLeft, h.closing, hengine, h.main, h.stepsLeft]
  · simp only [awaited, h.closing, hengine, h.main, h.engine]
  · rcases awaited_engine hengine with ha | ha | ha <;> rw [ha] <;>
      rcases hthread with rfl | rfl <;> decide

theorem recorder_gets (h : p.Ending) (failure : Option Nat) :
    Gets p (p.stepRecorder failure) .recorder := by
  have haside := aside_recorder p failure
  have hidle : (∀ r ∈ p.recorder, r.phase = .exited) → p.stepRecorder failure = p := by
    intro hexited
    unfold stepRecorder
    cases hr : p.recorder with
    | none => rfl
    | some r =>
      obtain ⟨phase, writer⟩ := r
      obtain rfl : phase = .exited := hexited _ hr
      rfl
  cases hclosing : p.closing with
  | engine => exact haside.gets hclosing (.inl rfl)
  | recorder =>
    by_cases hexited : ∀ r ∈ p.recorder, r.phase = .exited
    · rw [hidle hexited]
      refine .inr ⟨rfl, rfl, ?_⟩
      simp only [awaited, hclosing, if_pos hexited]
      decide
    · push Not at hexited
      obtain ⟨r, hr, hphase⟩ := hexited
      have hlt := recorder_stepsLeft h.inv (by simp [recorderStopRequested, hclosing]) hr hphase
        failure
      refine .inl ?_
      simp only [stepsLeft, haside.closing, hclosing]
      omega
  | publisher =>
    have hexited := h.inv.recorderExited (by simp [publisherStopRequested, hclosing])
    rw [hidle hexited]
    refine .inr ⟨rfl, rfl, ?_⟩
    simp only [awaited, hclosing]
    split_ifs <;> decide
  | returned status =>
    have hexited := h.inv.recorderExited (by simp [publisherStopRequested, hclosing])
    rw [hidle hexited]
    exact .inr ⟨rfl, rfl, by simp [awaited, hclosing]⟩

theorem publisher_gets (h : p.Ending) : Gets p p.stepPublisher .publisher := by
  obtain ⟨haside, hrecorder, hundrained⟩ := aside_publisher p
  have hidle : p.publisher = .exited → p.stepPublisher = p := by
    intro hexited
    simp only [stepPublisher, hexited]
  cases hclosing : p.closing with
  | engine => exact haside.gets hclosing (.inr rfl)
  | recorder =>
    refine .inr ⟨?_, ?_, ?_⟩
    · simp only [stepsLeft, haside.closing, hclosing, recorderStepsLeft, hrecorder, hundrained]
    · simp only [awaited, haside.closing, hclosing, hrecorder]
    · simp only [awaited, hclosing]
      split_ifs <;> decide
  | publisher =>
    by_cases hexited : p.publisher = .exited
    · rw [hidle hexited]
      exact .inr ⟨rfl, rfl, by simp [awaited, hclosing, hexited]⟩
    · have hlt := publisher_stepsLeft (by simp [publisherStopRequested, hclosing]) hexited h.inv
      refine .inl ?_
      simp only [stepsLeft, haside.closing, hclosing]
      omega
  | returned status =>
    rw [hidle (h.inv.publisherExited status hclosing)]
    exact .inr ⟨rfl, rfl, by simp [awaited, hclosing]⟩

theorem recorderStepsLeft_lt (h : p.Ending) : p.recorderStepsLeft < threadSteps := by
  rw [recorderStepsLeft, threadSteps, GatewayRun.engineSteps]
  cases hr : p.recorder with
  | none => simp
  | some r =>
    obtain ⟨captured, feed, queue, -, -, hundrained, -⟩ := h.inv.capture (w := r.writer)
      (by rw [writer, hr]; rfl)
    have hbounded := queue.bounded
    rw [Option.elim_some, hundrained]
    cases r.phase <;> simp only [RecorderPhase.stepsLeft] <;> omega

theorem publisher_stepsLeft_lt (phase : PublisherPhase) : phase.stepsLeft < threadSteps := by
  cases phase <;> decide

theorem gateway_stepsLeft_lt (r : GatewayRun) : r.stepsLeft < threadSteps :=
  Nat.lt_succ_of_le r.stepsLeft_le

theorem closing_gets (h : p.Ending) : Returned p.stepClosing ∨ Gets p p.stepClosing .closing := by
  have hrecorder := recorderStepsLeft_lt h
  have hpublisher := publisher_stepsLeft_lt p.publisher
  unfold stepClosing
  cases hclosing : p.closing with
  | engine =>
    refine .inr ?_
    dsimp only
    split_ifs with hmain hsome
    · refine .inl ?_
      simp only [stepsLeft, hclosing, hmain]
      change 2 * threadSteps + p.recorderStepsLeft < _
      omega
    · refine .inl ?_
      simp only [stepsLeft, hclosing, hmain]
      omega
    · refine .inr ⟨rfl, rfl, ?_⟩
      simp only [awaited, hclosing]
      split
      · contradiction
      · split_ifs <;> decide
      · decide
  | recorder =>
    refine .inr ?_
    dsimp only
    split_ifs with hexited
    · refine .inl ?_
      simp only [stepsLeft, hclosing]
      omega
    · refine .inr ⟨rfl, rfl, ?_⟩
      simp only [awaited, hclosing, if_neg hexited]
      decide
  | publisher =>
    dsimp only
    split_ifs with hexited
    · exact .inl ⟨_, rfl⟩
    · refine .inr (.inr ⟨rfl, rfl, ?_⟩)
      simp only [awaited, hclosing, if_neg hexited]
      decide
  | returned status => exact .inl ⟨status, hclosing⟩

theorem thread_gateway (event : GatewayEvent) :
    (ProcessEvent.gateway event).thread ≠ .recorder ∧
      (ProcessEvent.gateway event).thread ≠ .publisher ∧
        (ProcessEvent.gateway event).thread ≠ .closing := by
  cases event <;> simp [ProcessEvent.thread]

/-- A step of the main thread or the engine thread up to the join. -/
theorem gateway_gets (h : p.Ending) (hclosing : p.closing = .engine) (event : GatewayEvent) :
    Gets p (p.step (.gateway event)) (ProcessEvent.gateway event).thread := by
  have hsound := h.inv.sound
  -- a step that changes nothing, of a thread that is not awaited
  have hidle : p.gateway.step event = p.gateway →
      (ProcessEvent.gateway event).thread ≠ p.awaited →
        Gets p (p.step (.gateway event)) (ProcessEvent.gateway event).thread := by
    intro hsame hother
    rw [step, hsame]
    exact .inr ⟨rfl, rfl, hother⟩
  cases hmain : p.gateway.main with
  | serving =>
    have := h.signalled
    rw [hmain] at this
    cases this
  | draining =>
    have := h.signalled
    rw [hmain] at this
    cases this
  | joined =>
    refine hidle (GatewayRun.step_joined hsound hmain event) ?_
    simp only [awaited, hclosing, hmain]
    exact (thread_gateway event).2.2
  | returned =>
    have hawaited : p.awaited = .main := by simp only [awaited, hclosing, hmain]
    cases event with
    | main =>
      refine .inl ?_
      have hlt := gateway_stepsLeft_lt ⟨p.gateway.exchange, .joining, p.gateway.engine⟩
      simp only [stepsLeft, step, GatewayRun.step, GatewayRun.mainStep, hclosing, hmain]
      omega
    | engine =>
      have hsame := (GatewayRun.engineStep_move hsound.sessions.inv).main
      refine .inr ⟨?_, ?_, by simp [hawaited, ProcessEvent.thread]⟩
      · simp only [stepsLeft, step, GatewayRun.step, hclosing, hsame, hmain]
      · simp only [awaited, step, GatewayRun.step, hclosing, hsame, hmain]
    | accept | read | write | drain | signal =>
      refine hidle ?_ (by simp [hawaited, ProcessEvent.thread])
      simp only [GatewayRun.step, GatewayRun.handle, GatewayRun.drain, GatewayRun.signal, hmain]
  | joining =>
    by_cases hexited : p.gateway.engine = .exited
    · have hawaited : p.awaited = .main := by simp only [awaited, hclosing, hmain, if_pos hexited]
      cases event with
      | main =>
        refine .inl ?_
        have hpos : 0 < threadSteps := Nat.succ_pos _
        simp only [stepsLeft, step, GatewayRun.step, GatewayRun.mainStep, hclosing, hmain,
          if_pos hexited]
        omega
      | engine =>
        refine hidle ?_ (by simp [hawaited, ProcessEvent.thread])
        simp only [GatewayRun.step, GatewayRun.engineStep, hexited]
      | accept | read | write | drain | signal =>
        refine hidle ?_ (by simp [hawaited, ProcessEvent.thread])
        simp only [GatewayRun.step, GatewayRun.handle, GatewayRun.drain, GatewayRun.signal, hmain]
    · have hawaited : p.awaited = .engine := by
        simp only [awaited, hclosing, hmain, if_neg hexited]
      cases event with
      | main =>
        refine hidle ?_ (by simp [hawaited, ProcessEvent.thread])
        simp only [GatewayRun.step, GatewayRun.mainStep, hmain, if_neg hexited]
      | engine =>
        have hmove := GatewayRun.engineStep_move hsound.sessions.inv
        have hwedged : ¬ p.gateway.Wedged := fun hwedged => by
          have := hwedged.backlog
          have := h.backlog
          omega
        have hlt := hmove.stepsLeft_lt hexited h.signalled hwedged
          (fun hstop => by rw [hmain] at hstop; cases hstop)
        refine .inl ?_
        simp only [stepsLeft, step, GatewayRun.step, hclosing, hmove.main, hmain]
        omega
      | accept | read | write | drain | signal =>
        refine hidle ?_ (by simp [hawaited, ProcessEvent.thread])
        simp only [GatewayRun.step, GatewayRun.handle, GatewayRun.drain, GatewayRun.signal, hmain]

/-- Every turn counts. -/
theorem progress : Transducer.Progress
    (fun p event => ((GatewayProcess.step p event, ()) : GatewayProcess × Unit))
    ProcessEvent.thread {.main, .engine, .recorder, .publisher, .closing} Ending Returned stepsLeft
    awaited where
  mem p h _ := by
    cases hclosing : p.closing with
    | engine => rcases awaited_engine hclosing with ha | ha | ha <;> simp [ha]
    | recorder =>
      simp only [awaited, hclosing]
      split_ifs <;> simp
    | publisher =>
      simp only [awaited, hclosing]
      split_ifs <;> simp
    | returned status => simp [awaited, hclosing]
  turn p event h _ := by
    have hending := step_ending h event
    cases event with
    | gateway event =>
      refine .inr ⟨hending, ?_⟩
      by_cases hclosing : p.closing = .engine
      · exact gateway_gets h hclosing event
      · have hsame : p.step (.gateway event) = p := by
          rw [step, GatewayRun.step_joined h.inv.sound (h.inv.joined hclosing)]
        rw [hsame]
        refine .inr ⟨rfl, rfl, ?_⟩
        unfold awaited
        split
        · contradiction
        · split_ifs <;> simp [thread_gateway event]
        · split_ifs <;> simp [thread_gateway event]
        · exact (thread_gateway event).2.2
    | recorder failure => exact .inr ⟨hending, recorder_gets h failure⟩
    | publisher => exact .inr ⟨hending, publisher_gets h⟩
    | closing => exact (closing_gets h).imp_right fun hgets => ⟨hending, hgets⟩
  stays p event h := by
    obtain ⟨status, hstatus⟩ := h
    refine ⟨status, ?_⟩
    cases event with
    | gateway event => exact hstatus
    | recorder failure => exact (aside_recorder p failure).closing.trans hstatus
    | publisher => exact (aside_publisher p).1.closing.trans hstatus
    | closing =>
      simp only [step, stepClosing, hstatus]

theorem stepsLeft_le (h : p.Ending) : p.stepsLeft ≤ shutdownSteps := by
  have hrecorder := recorderStepsLeft_lt h
  have hpublisher := publisher_stepsLeft_lt p.publisher
  have hgateway := gateway_stepsLeft_lt p.gateway
  unfold stepsLeft shutdownSteps
  split
  · split <;> omega
  · omega
  · omega
  · omega

/-- Once the signal handler has run, the process returns on every schedule that gives each thread
a turn in each of its rounds, when the outbound queue has room for what is left to answer. -/
theorem shutdown_returns (eventLog : Bool) (events : List ProcessEvent)
    (hsignalled : (run eventLog events).gateway.main.signalled = true)
    (hbacklog : (run eventLog events).gateway.exchange.backlog ≤ 4096)
    {rounds : List (List ProcessEvent)}
    (hfair : ∀ round ∈ rounds, Transducer.FairRound ProcessEvent.thread
      {.main, .engine, .recorder, .publisher, .closing} round)
    (hrounds : shutdownSteps < rounds.length) :
    Returned (run eventLog (events ++ rounds.flatten)) := by
  have hending : Ending (run eventLog events) := ⟨run_inv eventLog events, hsignalled, hbacklog⟩
  have hle := stepsLeft_le hending
  rw [run, Transducer.run_append]
  exact progress.run_fair hending hfair (by omega)

theorem signalled_returns :
    Returned (run true
      ([.gateway .signal] ++ (List.replicate (shutdownSteps + 1) eachOnce).flatten)) := by
  refine shutdown_returns true [.gateway .signal] rfl (by decide +kernel) ?_ ?_
  · intro round hround
    rw [List.eq_of_mem_replicate hround]
    intro thread hthread
    rcases hthread with rfl | rfl | rfl | rfl | rfl
    · exact ⟨.gateway .main, by decide, rfl⟩
    · exact ⟨.gateway .engine, by decide, rfl⟩
    · exact ⟨.recorder none, by decide, rfl⟩
    · exact ⟨.publisher, by decide, rfl⟩
    · exact ⟨.closing, by decide, rfl⟩
  · rw [List.length_replicate]
    exact Nat.lt_succ_self shutdownSteps

/-! ## The published book -/

/-- The events in the market data queue. -/
def unpublished (p : GatewayProcess) : List MarketDataEvent :=
  p.service.marketDataFeed.elim [] fun x => x.2.items

/-- The market data events that the feed has dropped. -/
def droppedEvents (p : GatewayProcess) : UInt64 :=
  p.service.marketDataFeed.elim 0 fun x => x.1.droppedEvents

/-- Whenever the published book is synchronized, it is the depth of the engine's book after as
many messages as its sequence number says. When the publisher has caught up with a feed that has
dropped nothing, it is the depth of the book after the last message that was published. This is
the engine's book as it is, unless a handler is running. -/
theorem book_published (eventLog : Bool) (events : List ProcessEvent) :
    let p := run eventLog events
    let depthAfter := fun n =>
      (OrderBook.run ((p.finished.map InboundMessage.command).take n)).depth kMarketDataDepth
    (p.publishedBook.synchronized = true → ∃ number, p.publishedBook.lastSequence = some number ∧
      number.value ≤ p.finished.length ∧
      p.publishedBook.bids = padded (depthAfter number.value).bids ∧
      p.publishedBook.asks = padded (depthAfter number.value).asks) ∧
    (p.unpublished = [] → p.droppedEvents = 0 → 0 < p.finished.length →
      p.finished.length < 2 ^ 64 → p.publishedBook.synchronized = true ∧
      p.publishedBook.bids = padded (depthAfter p.finished.length).bids ∧
      p.publishedBook.asks = padded (depthAfter p.finished.length).asks ∧
      (p.gateway.exchange.call.handling = false →
        depthAfter p.finished.length = p.service.book.depth kMarketDataDepth)) := by
  dsimp only
  have h := run_inv eventLog events
  generalize run eventLog events = p at h
  obtain ⟨feed, queue, pipeline, hfeed, hmarket⟩ := h.feeds.holds.market
  refine ⟨hmarket.published, fun hdrained hdropped hpos hlt => ?_⟩
  rw [unpublished, service, hfeed] at hdrained
  rw [droppedEvents, service, hfeed] at hdropped
  obtain ⟨hsynchronized, number, hnumber, hvalue⟩ := hmarket.current hdrained hdropped hpos hlt
  obtain ⟨number', hnumber', -, hbids, hasks⟩ := hmarket.published hsynchronized
  obtain rfl := Option.some.inj (hnumber.symm.trans hnumber')
  rw [hvalue] at hbids hasks
  refine ⟨hsynchronized, hbids, hasks, fun hrest => ?_⟩
  have hbook := h.feeds.holds.metrics.book
  rw [← Exchange.finished_of_not_handling hrest] at hbook
  rw [service, hbook, List.take_of_length_le (by simp), finished]

end GatewayProcess

end LowLatencyExchange
