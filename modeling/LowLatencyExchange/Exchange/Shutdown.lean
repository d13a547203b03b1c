import LowLatencyExchange.Exchange.Delivery
import LowLatencyExchange.Exchange.RunGateway
import Mathlib.Tactic

/-!
# Shutdown

Nobody pops the outbound queue once the signal handler has run, and the engine thread does not
look at the stop request before it has answered every command in the inbound queue. So the engine
ends, and the join returns, if the answers have room: the messages in the outbound queue, those
pending and those that the commands in the inbound queue are answered with.
-/
namespace LowLatencyExchange

open Protocol MatchingEngineService

/-! ## The messages to come -/

namespace MatchingEngineService

/-- The messages that answer commands, one after another. -/
def answers (book : OrderBook) (sessions : OrderSessions) :
    List InboundMessage → List OutboundMessage
  | [] => []
  | message :: messages =>
    responses message.sessionId book sessions.lookup message.command ++
      answers (book.step message.command).1
        (nextSessions message.sessionId book sessions message.command) messages

theorem length_responses_pos (sessionId : UInt64) (book : OrderBook)
    (sessions : OrderId → Option UInt64) (c : Command) :
    0 < (responses sessionId book sessions c).length := by
  simp [responses]

theorem length_le_length_answers (book : OrderBook) (sessions : OrderSessions)
    (messages : List InboundMessage) :
    messages.length ≤ (answers book sessions messages).length := by
  induction messages generalizing book sessions with
  | nil => exact Nat.zero_le _
  | cons message messages ih =>
    have hrest := ih (book.step message.command).1
      (nextSessions message.sessionId book sessions message.command)
    have hfirst := length_responses_pos message.sessionId book sessions.lookup message.command
    simp only [answers, List.length_append, List.length_cons]
    omega

end MatchingEngineService

namespace Exchange

/-- The messages in the outbound queue, and those that will get there if no command arrives. -/
def backlog (e : Exchange) : Nat :=
  e.outbound.size + e.pending.length +
    (answers e.engine.service.book e.engine.service.orderSessions
      e.engine.service.inbound.items).length

variable {e e' : Exchange}

theorem Takes.backlog {message : InboundMessage} (h : Takes e e' message)
    (hcall : e.call = .sized) : e'.backlog = e.backlog := by
  simp only [Exchange.backlog, h.outbound, h.pending, h.book, h.orderSessions, h.inbound,
    pending_of_call hcall, EngineCall.pending, answers, List.length_append, List.length_nil]
  omega

theorem Rests.backlog (h : Rests e e') : e'.backlog = e.backlog := by
  simp only [Exchange.backlog, h.outbound, h.pending, h.book, h.orderSessions, h.inbound]

end Exchange

/-- The steps that a call of `process_one` still takes beside its pushes and its pop, and one that
begins the next call. -/
def EngineCall.stepsLeft : EngineCall → Nat
  | .sized => 0
  | .idle => 1
  | .answering _ _ _ => 2

namespace GatewayRun

variable {r r' : GatewayRun}

theorem EngineMove.backlog (h : EngineMove r r') : r'.exchange.backlog = r.exchange.backlog := by
  cases h with
  | take count message exchange h hcall htakes => exact htakes.backlog hcall
  | push count message accepted msg pending outbound h hcall houtbound =>
    simp only [Exchange.backlog, BoundedFifo.size, Exchange.pending, hcall, EngineCall.pending,
      houtbound, List.length_append, List.length_cons, List.length_nil]
    omega
  | size | finish | none => exact Exchange.Rests.backlog (by assumption)
  | _ => rfl

/-! ## The wedge -/

/-- The signal handler has run, the outbound queue is full, and the engine thread waits in
`push_outbound`. -/
structure Wedged (r : GatewayRun) : Prop where
  signalled : r.main.signalled = true
  full : r.exchange.outbound.size = 4096
  processing : ∃ count, r.engine = .processing count
  waiting : r.exchange.pending ≠ []

theorem Wedged.backlog (h : r.Wedged) : 4096 < r.exchange.backlog := by
  have := h.full
  have := List.length_pos_iff.mpr h.waiting
  rw [Exchange.backlog]
  omega

theorem Wedged.engineStep (h : r.Wedged) : r.engineStep = r := by
  obtain ⟨count, hengine⟩ := h.processing
  obtain ⟨message, accepted, msg, pending, hcall⟩ := Exchange.call_of_pending h.waiting
  have hpush : r.exchange.push = r.exchange := by
    simp only [Exchange.push, hcall, BoundedFifo.tryPush_eq_none.mpr h.full]
  rw [engineStep_pending hengine h.waiting, hpush]

/-- Behind the signal handler, the other steps only move the main thread. -/
theorem step_signalled (h : r.main.signalled = true) {event : GatewayEvent}
    (hevent : event ≠ .engine) :
    (r.step event).exchange = r.exchange ∧ (r.step event).engine = r.engine ∧
      (r.step event).main.signalled = true := by
  cases event with
  | engine => exact absurd rfl hevent
  | main =>
    simp only [step, mainStep]
    split
    · exact ⟨rfl, rfl, rfl⟩
    · split_ifs
      · exact ⟨rfl, rfl, rfl⟩
      · exact ⟨rfl, rfl, h⟩
    · exact ⟨rfl, rfl, h⟩
  | _ =>
    have hmain : r.main ≠ .serving ∧ r.main ≠ .draining := by grind [MainPhase.signalled]
    simp only [step, handle, drain, signal]
    split <;> grind

/-- No step leaves a wedge. -/
theorem Wedged.step (h : r.Wedged) (event : GatewayEvent) : (r.step event).Wedged := by
  by_cases hevent : event = .engine
  · rw [hevent, GatewayRun.step, h.engineStep]
    exact h
  · obtain ⟨hexchange, hengine, hsignalled⟩ := step_signalled h.signalled hevent
    exact ⟨hsignalled, hexchange ▸ h.full, hengine ▸ h.processing, hexchange ▸ h.waiting⟩

theorem step_backlog (hsound : r.Sound) (hsignalled : r.main.signalled = true)
    (event : GatewayEvent) : (r.step event).main.signalled = true ∧
      (r.step event).exchange.backlog = r.exchange.backlog := by
  by_cases hevent : event = .engine
  · have hmove := engineStep_move hsound.sessions.inv
    rw [hevent]
    exact ⟨hmove.main ▸ hsignalled, hmove.backlog⟩
  · obtain ⟨hexchange, -, hafter⟩ := step_signalled hsignalled hevent
    exact ⟨hafter, congrArg Exchange.backlog hexchange⟩

/-- Behind the signal handler the backlog stays what it is. -/
theorem runFrom_backlog (hsound : r.Sound) (hsignalled : r.main.signalled = true)
    (events : List GatewayEvent) : (runFrom r events).exchange.backlog = r.exchange.backlog := by
  refine (Transducer.run_invariant (fun s : GatewayRun => s.Sound ∧ s.main.signalled = true ∧
    s.exchange.backlog = r.exchange.backlog) ?_ ⟨hsound, hsignalled, rfl⟩ events).2.2
  rintro s event ⟨hsound, hsignalled, hsame⟩
  obtain ⟨hafter, hbacklog⟩ := step_backlog hsound hsignalled event
  exact ⟨hsound.step event, hafter, hbacklog.trans hsame⟩

/-! ## Where the engine thread gets to -/

/-- The steps to the next call of `process_available`, or to the end if that is requested. -/
def phaseSteps (stop : Bool) : EnginePhase → Nat
  | .processing _ => if stop then 4 else 0
  | .sleeping => 2
  | .checking => 1
  | .exited => 0

/-- A bound on the steps of the engine thread: a push for each place in the outbound queue, a pop
and two more steps of the call for each command, and those to the next phase. -/
def stepsLeft (r : GatewayRun) : Nat :=
  4096 - r.exchange.outbound.size + 3 * r.exchange.engine.service.inbound.size +
    r.exchange.call.stepsLeft + phaseSteps r.main.stopRequested r.engine

/-- What `stepsLeft` comes to at most: 4096 pushes, three steps for each of 4096 commands, two of
the current call, and four to the end. -/
def engineSteps : Nat := 4096 + 3 * 4096 + 2 + 4

theorem stepsLeft_le (r : GatewayRun) : r.stepsLeft ≤ engineSteps := by
  have hinbound := r.exchange.engine.service.inbound.bounded
  have hphase : phaseSteps r.main.stopRequested r.engine ≤ 4 := by
    cases r.engine <;> cases r.main.stopRequested <;> simp [phaseSteps]
  have hcall : r.exchange.call.stepsLeft ≤ 2 := by
    cases r.exchange.call <;> simp [EngineCall.stepsLeft]
  rw [stepsLeft, engineSteps, BoundedFifo.size, BoundedFifo.size]
  omega

/-- The thread gets on unless it has ended or waits for room in the outbound queue. Before the
stop request, a backlog that does not fit keeps it in `process_available`. -/
theorem EngineMove.stepsLeft_lt (h : EngineMove r r') (hexited : r.engine ≠ .exited)
    (hsignalled : r.main.signalled = true) (hwedged : ¬ r.Wedged)
    (hbacklog : r.main.stopRequested = false → 4096 < r.exchange.backlog) :
    r'.stepsLeft < r.stepsLeft := by
  cases h with
  | start h hstop => simp [stepsLeft, h, hstop, phaseSteps]
  | exit h hstop => simp [stepsLeft, h, phaseSteps]
  | size count exchange h hcall hrests hcall' =>
    simp only [stepsLeft, hcall, hcall', EngineCall.stepsLeft, hrests.outbound, hrests.inbound]
    omega
  | take count message exchange h hcall htakes =>
    have hinbound := congrArg List.length htakes.inbound
    obtain ⟨accepted, hcall'⟩ := htakes.call
    simp only [List.length_cons] at hinbound
    simp only [stepsLeft, hcall, hcall', EngineCall.stepsLeft, htakes.outbound, BoundedFifo.size,
      hinbound]
    omega
  | push count message accepted msg pending outbound h hcall houtbound =>
    have hbounded := outbound.bounded
    simp only [houtbound, List.length_append, List.length_singleton] at hbounded
    simp only [stepsLeft, hcall, EngineCall.stepsLeft, BoundedFifo.size, houtbound,
      List.length_append, List.length_singleton]
    omega
  | wait count h hpending hfull => exact absurd ⟨hsignalled, hfull, ⟨count, h⟩, hpending⟩ hwedged
  | finish count message accepted exchange h hcall hrests hcall' =>
    simp only [stepsLeft, h, phaseSteps, hcall, hcall', EngineCall.stepsLeft, hrests.outbound,
      hrests.inbound]
    omega
  | none count exchange engine h hcall hempty hrests hcall' hengine =>
    cases hstop : r.main.stopRequested with
    | false =>
      have hbounded := r.exchange.outbound.bounded
      have hover := hbacklog hstop
      simp only [Exchange.backlog, Exchange.pending_of_call hcall, EngineCall.pending, hempty,
        answers, List.length_nil, BoundedFifo.size] at hover
      omega
    | true =>
      simp only [stepsLeft, h, hstop, hcall, hcall', EngineCall.stepsLeft, hrests.outbound,
        hrests.inbound]
      rcases hengine with rfl | rfl <;> simp [phaseSteps]
  | wake h => simp [stepsLeft, h, phaseSteps]
  | exited h => exact absurd h hexited

/-- The engine thread alone gets to its end or to a wedge. -/
theorem ends_or_wedges (h : r.Sound) (hsignalled : r.main.signalled = true)
    (hbacklog : r.main.stopRequested = false → 4096 < r.exchange.backlog) {n : Nat}
    (hn : r.stepsLeft ≤ n) : (runFrom r (List.replicate n .engine)).engine = .exited ∨
      (runFrom r (List.replicate n .engine)).Wedged := by
  apply Transducer.run_replicate_of_measure
    (fun r : GatewayRun => r.Sound ∧ r.main.signalled = true ∧
      (r.main.stopRequested = false → 4096 < r.exchange.backlog))
    (fun r => r.engine = .exited ∨ r.Wedged) stepsLeft
  · rintro r ⟨h, hsignalled, hbacklog⟩ hgoal
    obtain ⟨hexited, hwedged⟩ := not_or.mp hgoal
    have hmove := engineStep_move h.sessions.inv
    refine ⟨⟨h.engineStep, ?_, ?_⟩, hmove.stepsLeft_lt hexited hsignalled hwedged hbacklog⟩
    · exact hmove.main ▸ hsignalled
    · exact hmove.main ▸ hmove.backlog ▸ hbacklog
  · rintro r (hexited | hwedged)
    · left
      simp only [step, engineStep, hexited]
    · exact .inr (hwedged.step .engine)
  · exact .inr ⟨⟨h, hsignalled, hbacklog⟩, hn⟩

/-- A backlog that does not fit fills the outbound queue, if the engine thread takes its steps
before the main thread. -/
theorem wedged_of_backlog (h : r.Sound) (hsignalled : r.main.signalled = true)
    (hstop : r.main.stopRequested = false) (hbacklog : 4096 < r.exchange.backlog) {n : Nat}
    (hn : r.stepsLeft ≤ n) : (runFrom r (List.replicate n .engine)).Wedged := by
  refine (ends_or_wedges h hsignalled (fun _ => hbacklog) hn).resolve_left fun hexited => ?_
  have hrequested := (h.runFrom (List.replicate n .engine)).exited hexited
  rw [main_of_engine h n, hstop] at hrequested
  cases hrequested

/-- After the stop request, a backlog that fits is pushed, and the engine thread ends. -/
theorem exited_of_backlog (h : r.Sound) (hsignalled : r.main.signalled = true)
    (hstop : r.main.stopRequested = true) (hbacklog : r.exchange.backlog ≤ 4096) {n : Nat}
    (hn : r.stepsLeft ≤ n) : (runFrom r (List.replicate n .engine)).engine = .exited := by
  refine (ends_or_wedges h hsignalled (fun hnot => ?_) hn).resolve_right fun hwedged => ?_
  · rw [hstop] at hnot
    cases hnot
  · have hover := hwedged.backlog
    rw [runFrom_backlog h hsignalled] at hover
    omega

theorem mainStep_joined (hexited : r.engine = .exited) (hstop : r.main.stopRequested = true) :
    r.mainStep.main = .joined := by
  unfold mainStep
  cases hmain : r.main <;> grind [MainPhase.stopRequested]

theorem mainStep_stopRequested (hsignalled : r.main.signalled = true) :
    r.mainStep.main.stopRequested = true := by
  unfold mainStep
  cases hmain : r.main <;> grind [MainPhase.signalled, MainPhase.stopRequested]

/-- The main thread requests the stop, the engine thread ends, and the join returns. -/
theorem joined_of_backlog (h : r.Sound) (hsignalled : r.main.signalled = true)
    (hbacklog : r.exchange.backlog ≤ 4096) : ∃ events, (runFrom r events).main = .joined := by
  obtain ⟨hexchange, -, hsignalled'⟩ :=
    step_signalled hsignalled (show GatewayEvent.main ≠ .engine from nofun)
  have hbacklog' : r.mainStep.exchange.backlog ≤ 4096 := by
    rw [show r.mainStep.exchange = r.exchange from hexchange]
    exact hbacklog
  have hexited := exited_of_backlog h.mainStep hsignalled' (mainStep_stopRequested hsignalled)
    hbacklog' le_rfl
  have hsound := h.mainStep.runFrom (List.replicate r.mainStep.stepsLeft .engine)
  refine ⟨.main :: List.replicate r.mainStep.stepsLeft .engine ++ [.main], ?_⟩
  rw [runFrom, List.cons_append, Transducer.run_cons, Transducer.run_append]
  exact mainStep_joined hexited (hsound.exited hexited)

/-! ## The signal -/

/-- Nothing but the signal handler ends the serving, and it runs when no other handler does. -/
theorem signal_of_signalled (inv : r.exchange.engine.service.book.Inv)
    (hbefore : r.main.signalled = false) {event : GatewayEvent}
    (hafter : (r.step event).main.signalled = true) : event = .signal ∧ r.main = .serving := by
  cases event with
  | signal =>
    refine ⟨rfl, ?_⟩
    simp only [step, signal] at hafter
    split at hafter
    · assumption
    · simp [hbefore] at hafter
  | engine =>
    rw [step, (engineStep_move inv).main, hbefore] at hafter
    cases hafter
  | drain =>
    simp only [step, drain] at hafter
    split at hafter
    · split_ifs at hafter <;> cases hafter
    · split_ifs at hafter <;> cases hafter
    · simp [hbefore] at hafter
  | main =>
    simp only [step, mainStep] at hafter
    split at hafter <;> grind [MainPhase.signalled]
  | accept | read | write =>
    simp only [step, handle] at hafter
    split at hafter <;> simp [hbefore] at hafter

/-- Where the signal handler has run, there is room for the backlog. -/
def Fits (r : GatewayRun) : Prop := r.main.signalled = true → r.exchange.backlog ≤ 4096

theorem signal_serving (h : r.main = .serving) :
    r.signal = { r with exchange := r.exchange.stop, main := .returned } := by
  rw [signal, h]

theorem Fits.step (hsound : r.Sound) (h : r.Fits) (event : GatewayEvent)
    (hsignal : event = .signal → r.main = .serving → r.exchange.backlog ≤ 4096) :
    (r.step event).Fits := by
  intro hafter
  cases hbefore : r.main.signalled with
  | true => exact (step_backlog hsound hbefore event).2 ▸ h hbefore
  | false =>
    obtain ⟨rfl, hserving⟩ := signal_of_signalled hsound.sessions.inv hbefore hafter
    rw [GatewayRun.step, signal_serving hserving]
    exact hsignal rfl hserving

theorem signal_wedges (hsound : r.Sound) (hserving : r.main = .serving)
    (hbacklog : 4096 < r.exchange.backlog) {n : Nat} (hn : engineSteps ≤ n) :
    (runFrom r (.signal :: List.replicate n .engine)).Wedged := by
  have hsignal := hsound.signal
  have hsteps := stepsLeft_le r.signal
  change (runFrom r.signal (List.replicate n .engine)).Wedged
  rw [signal_serving hserving] at hsignal hsteps ⊢
  exact wedged_of_backlog hsignal rfl rfl hbacklog (hsteps.trans hn)

theorem Wedged.runFrom (h : r.Wedged) (events : List GatewayEvent) : (r.runFrom events).Wedged :=
  Transducer.run_invariant Wedged (fun _ event h => h.step event) h events

theorem Fits.wedged (h : r.Fits) : ¬ r.Wedged := by
  intro hwedged
  have hroom := h hwedged.signalled
  have hover := hwedged.backlog
  omega

section

variable (marketDataFeed : Option (MarketDataFeed × MarketDataQueue))
  (eventCaptureFeed : Option (EventCaptureFeed × EventCaptureQueue))

theorem run_fits {events : List GatewayEvent}
    (hsignal : ∀ before, before ++ [.signal] <+: events →
      (run marketDataFeed eventCaptureFeed before).main = .serving →
      (run marketDataFeed eventCaptureFeed before).exchange.backlog ≤ 4096) :
    (run marketDataFeed eventCaptureFeed events).Fits := by
  induction events using List.reverseRecOn with
  | nil => exact nofun
  | append_singleton events event ih =>
    rw [run_append]
    refine Fits.step (run_sound marketDataFeed eventCaptureFeed events) (ih fun before hbefore =>
      hsignal before (hbefore.trans (List.prefix_append _ _))) event ?_
    rintro rfl
    exact hsignal events (List.prefix_refl _)

/-- In every run in which the backlog fits into the outbound queue whenever the signal handler
runs, no state is a wedge, and the join can still return from every state behind the signal. If
it does not fit, there are steps of the engine thread that end in a wedge. -/
theorem shutdown_wedges_iff (events : List GatewayEvent) :
    ((∀ before, before ++ [.signal] <+: events →
        (run marketDataFeed eventCaptureFeed before).main = .serving →
        (run marketDataFeed eventCaptureFeed before).exchange.backlog ≤ 4096) →
      ∀ reached, reached <+: events →
        ¬ (run marketDataFeed eventCaptureFeed reached).Wedged ∧
        ((run marketDataFeed eventCaptureFeed reached).main.signalled = true →
          ∃ more, (run marketDataFeed eventCaptureFeed (reached ++ more)).main = .joined)) ∧
    ((run marketDataFeed eventCaptureFeed events).main = .serving →
      ((∃ more, (run marketDataFeed eventCaptureFeed (events ++ .signal :: more)).Wedged) ↔
        4096 < (run marketDataFeed eventCaptureFeed events).exchange.backlog)) := by
  constructor
  · intro hsignal reached hreached
    have hfits : (run marketDataFeed eventCaptureFeed reached).Fits :=
      run_fits marketDataFeed eventCaptureFeed fun before hbefore =>
        hsignal before (hbefore.trans hreached)
    refine ⟨hfits.wedged, fun hsignalled => ?_⟩
    simp only [run_append]
    exact joined_of_backlog (run_sound marketDataFeed eventCaptureFeed reached) hsignalled
      (hfits hsignalled)
  · intro hserving
    have hsound := run_sound marketDataFeed eventCaptureFeed events
    simp only [run_append]
    constructor
    · rintro ⟨more, hwedged⟩
      have hsignal := hsound.signal
      have hover := hwedged.backlog
      rw [signal_serving hserving] at hsignal
      change 4096 < (runFrom (GatewayRun.signal _) more).exchange.backlog at hover
      rwa [signal_serving hserving, runFrom_backlog hsignal rfl more] at hover
    · intro hbacklog
      exact ⟨_, signal_wedges hsound hserving hbacklog le_rfl⟩

end

/-- The signal comes before the answer to an order has been pushed. -/
def orderlyShutdown : List GatewayEvent :=
  [.accept (orderStream
      ⟨SequenceNumber.of 1, OrderId.of 10, .sell, .limit, Quantity.of 5, some (Price.of 100)⟩),
    .read 0 false, .engine, .read 0 false, .engine, .engine, .signal, .main, .engine, .engine,
    .engine, .engine, .engine, .main]

theorem orderlyShutdown_joins : (run none none orderlyShutdown).main = .joined ∧
    ∀ reached, reached <+: orderlyShutdown → ¬ (run none none reached).Wedged := by
  have hall : ∀ n < orderlyShutdown.length,
      (run none none (orderlyShutdown.take n)).exchange.backlog ≤ 4096 := by decide +kernel
  refine ⟨by decide +kernel, fun reached hreached =>
    ((shutdown_wedges_iff none none orderlyShutdown).1 ?_ reached hreached).1⟩
  intro before hbefore _
  have hlt := hbefore.length_le
  rw [List.length_append] at hlt
  rw [List.prefix_iff_eq_take.mp ((List.prefix_append before [.signal]).trans hbefore)]
  exact hall _ hlt

end GatewayRun

/-! ## A burst of commands -/

open TcpSession

def cancelHeader : WireHeader := ⟨kMagic, kVersion, MessageType.cancelOrder.value, 0, 16⟩

def cancelFrame (order : CancelOrder) : List UInt8 :=
  LittleEndian.record (headerFields cancelHeader) ++ LittleEndian.record (cancelOrderFields order)

theorem onRead_cancelHeader (tryPush : Nat → Bool) {c : Connection} {rest : List UInt8}
    (hreading : c.reading = some .header)
    (hunread : c.unread = LittleEndian.record (headerFields cancelHeader) ++ rest) :
    onRead tryPush c false = doReadPayload { c with unread := rest } cancelHeader := by
  obtain ⟨hdelivered, hdrop⟩ := @delivered_append { c with reading := none } _ _ _ hunread
    (length_header cancelHeader)
  have hdecoded := decodeHeader_record cancelHeader []
  rw [List.append_nil] at hdecoded
  have hvalid : validateHeader cancelHeader = none := by decide
  simp only [onRead, hreading, onReadHeader, hdelivered, hdecoded, hvalid, doReadPayload, hdrop]

theorem onRead_cancelPayload {tryPush : Nat → Bool} {c : Connection} {order : CancelOrder}
    {rest : List UInt8} (hreading : c.reading = some (.payload cancelHeader))
    (hunread : c.unread = LittleEndian.record (cancelOrderFields order) ++ rest)
    (hsequence : c.lastSequence < order.sequence.value)
    (hroom : tryPush c.pushed.length = true) :
    onRead tryPush c false = doReadHeader
      { c with
        unread := rest
        pushed := c.pushed ++ [messageOf c.sessionId cancelHeader.type (.cancel order)]
        lastSequence := order.sequence.value } := by
  have hsize : (LittleEndian.record (cancelOrderFields order)).length =
      cancelHeader.payloadLength.toNat := length_cancelOrder order
  obtain ⟨hdelivered, hdrop⟩ := @delivered_append { c with reading := none } _ _ _ hunread hsize
  have hdecoded : decodePayload cancelHeader.type (LittleEndian.record (cancelOrderFields order)) =
      .ok (.cancel order) := by
    have htype : MessageType.fromValue cancelHeader.type = some .cancelOrder :=
      MessageType.fromValue_value .cancelOrder
    simp only [decodePayload, htype, decodeCancelOrder_record, decodedAs]
  have hnew : ¬ order.sequence.value ≤ c.lastSequence := by omega
  simp only [onRead, hreading, onReadPayload, hdelivered, hdecoded, enqueueCommand,
    Command.sequence, hnew, hroom, if_false, Bool.true_eq_false, if_true, hdrop]
  rfl

namespace Exchange

/-- A read of the only session. -/
theorem read_only {e : Exchange} {s : SessionRun} (hsessions : e.sessions = [s])
    {messages : List InboundMessage}
    (hpushed : (onRead e.hasRoom s.connection false).pushed = s.connection.pushed ++ messages) :
    e.read 0 false =
      { e with
        sessions := [s.read e.hasRoom false]
        engine := messages.foldl (fun engine message => engine.step (.receive message)) e.engine } := by
  have hdrop : (s.read e.hasRoom false).connection.pushed.drop s.connection.pushed.length =
      messages := by
    change (onRead e.hasRoom s.connection false).pushed.drop _ = messages
    rw [hpushed, List.drop_left]
  simp only [read, hsessions, List.getElem?_cons_zero, hdrop, List.set_cons_zero]

/-- The only session reads a cancel, and pushes it. -/
theorem read_cancel {e : Exchange} {s : SessionRun} {order : CancelOrder} {rest : List UInt8}
    (hsessions : e.sessions = [s]) (hreading : s.connection.reading = some .header)
    (hunread : s.connection.unread = cancelFrame order ++ rest)
    (hsequence : s.connection.lastSequence < order.sequence.value)
    (hroom : e.engine.service.inbound.size < 4096) :
    ∃ s' message, (e.read 0 false).read 0 false =
        { e with sessions := [s'], engine := e.engine.step (.receive message) } ∧
      s'.connection.reading = some .header ∧ s'.connection.unread = rest ∧
      s'.connection.lastSequence = order.sequence.value := by
  rw [cancelFrame, List.append_assoc] at hunread
  have hheader := onRead_cancelHeader e.hasRoom hreading hunread
  have hnothing : (onRead e.hasRoom s.connection false).pushed = s.connection.pushed ++ [] := by
    rw [hheader, List.append_nil]
    rfl
  have hread : (s.read e.hasRoom false).connection = doReadPayload _ cancelHeader := hheader
  have hpayload := @onRead_cancelPayload e.hasRoom (s.read e.hasRoom false).connection order rest
    (by rw [hread]; rfl) (by rw [hread]; rfl) (by rw [hread]; exact hsequence)
    (decide_eq_true hroom)
  rw [read_only hsessions hnothing]
  refine ⟨_, _, @read_only { e with sessions := [s.read e.hasRoom false] } _ rfl _
    (congrArg Connection.pushed hpayload), ?_⟩
  have hread' : ((s.read e.hasRoom false).read e.hasRoom false).connection = doReadHeader _ :=
    hpayload
  exact ⟨congrArg Connection.reading hread', congrArg Connection.unread hread',
    congrArg Connection.lastSequence hread'⟩

end Exchange

namespace GatewayRun

/-- A client is connected who has still to send the orders, and nothing is answered. -/
structure Sending (r : GatewayRun) (orders : List CancelOrder) (n : Nat) : Prop where
  serving : r.main = .serving
  session : ∃ s, r.exchange.sessions = [s] ∧ s.connection.reading = some .header ∧
    s.connection.unread = orders.flatMap cancelFrame ∧
    ∀ order ∈ orders, s.connection.lastSequence < order.sequence.value
  sorted : orders.Pairwise fun a b => a.sequence.value < b.sequence.value
  inbound : r.exchange.engine.service.inbound.size = n
  outbound : r.exchange.outbound.items = []

/-- The reads of a frame, and a drain. -/
def arrival : List GatewayEvent := [.read 0 false, .read 0 false, .drain]

variable {r : GatewayRun} {orders : List CancelOrder} {order : CancelOrder} {n : Nat}

theorem handle_serving (h : r.main = .serving) (event : ExchangeEvent) :
    r.handle event = { r with exchange := r.exchange.step event } := by
  rw [handle, h]

/-- A drain that finds nothing. -/
theorem drain_empty (h : r.main = .serving) (hempty : r.exchange.outbound.items = []) :
    r.drain = r := by
  have hpop : r.exchange.outbound.tryPop = none := by
    cases hpop : r.exchange.outbound.tryPop with
    | none => rfl
    | some popped => simp [BoundedFifo.items_of_tryPop hpop] at hempty
  simp only [drain, h, Exchange.poll, hpop]
  cases r
  simp_all

theorem Sending.arrive (h : r.Sending (order :: orders) n) (hn : n < 4096) :
    (runFrom r arrival).Sending orders (n + 1) ∧
    (runFrom r arrival).exchange.call = r.exchange.call ∧
    (runFrom r arrival).engine = r.engine := by
  obtain ⟨s, hsessions, hreading, hunread, hsequence⟩ := h.session
  obtain ⟨hlater, hsorted⟩ := List.pairwise_cons.mp h.sorted
  obtain ⟨s', message, hread, hreading', hunread', hlast⟩ := Exchange.read_cancel hsessions hreading
    (by rw [hunread, List.flatMap_cons]) (hsequence order List.mem_cons_self) (h.inbound.trans_lt hn)
  have hrun : runFrom r arrival =
      { r with exchange := (r.exchange.read 0 false).read 0 false } := by
    simp only [runFrom, arrival, Transducer.run_cons, Transducer.run_nil, step]
    rw [handle_serving h.serving, handle_serving (by exact h.serving)]
    refine drain_empty h.serving ?_
    change ((r.exchange.read 0 false).read 0 false).outbound.items = []
    rw [hread]
    exact h.outbound
  obtain ⟨-, hinbound, -⟩ := receive_of_room r.exchange.engine message (h.inbound.trans_lt hn)
  rw [hrun, hread]
  refine ⟨⟨h.serving, ⟨s', rfl, hreading', hunread', ?_⟩, hsorted, ?_, h.outbound⟩, rfl, rfl⟩
  · intro later hmem
    rw [hlast]
    exact hlater later hmem
  · rw [BoundedFifo.size, hinbound, List.length_append, List.length_singleton]
    exact congrArg (· + 1) h.inbound

theorem Sending.arrivals {first : List CancelOrder} (h : r.Sending (first ++ orders) n)
    (hn : n + first.length ≤ 4096) :
    (runFrom r (List.replicate first.length arrival).flatten).Sending orders (n + first.length) ∧
    (runFrom r (List.replicate first.length arrival).flatten).exchange.call = r.exchange.call ∧
    (runFrom r (List.replicate first.length arrival).flatten).engine = r.engine := by
  induction first generalizing r n with
  | nil => exact ⟨h, rfl, rfl⟩
  | cons order first ih =>
    rw [List.length_cons] at hn ⊢
    obtain ⟨harrived, hcall, hengine⟩ := h.arrive (by omega)
    obtain ⟨hall, hcall', hengine'⟩ := ih harrived (by omega)
    rw [List.replicate_succ, List.flatten_cons, runFrom, Transducer.run_append]
    rw [Nat.add_right_comm] at hall
    exact ⟨hall, hcall'.trans hcall, hengine'.trans hengine⟩

/-- The engine thread takes the first command, and has its answer to push. -/
theorem Sending.take (h : r.Sending orders (n + 1)) (hsound : r.Sound)
    (hcall : r.exchange.call = .idle) (hengine : r.engine = .checking) :
    (runFrom r [.engine, .engine, .engine]).Sending orders n ∧
    (runFrom r [.engine, .engine, .engine]).exchange.pending ≠ [] := by
  obtain ⟨hrests, hsized⟩ := Exchange.process_sizes hcall
  have hstart : r.engineStep = { r with engine := .processing 0 } := by
    simp only [engineStep, hengine, h.serving]
    rfl
  have hsize : { r with engine := .processing 0 }.engineStep =
      { r with exchange := r.exchange.process, engine := .processing 0 } := by
    simp only [engineStep, hcall]
  have hlength : r.exchange.process.engine.service.inbound.items.length = n + 1 :=
    hrests.inbound ▸ h.inbound
  cases hpop : r.exchange.process.engine.service.inbound.tryPop with
  | none =>
    rw [BoundedFifo.items_of_tryPop_none hpop] at hlength
    cases hlength
  | some popped =>
    have htakes := Exchange.process_takes (hrests.book ▸ hsound.sessions.inv) hsized hpop
    have htaken : runFrom r [.engine, .engine, .engine] =
        { r with exchange := r.exchange.process.process, engine := .processing 0 } := by
      change r.engineStep.engineStep.engineStep = _
      rw [hstart, hsize]
      simp only [engineStep, hsized, hpop, Option.isSome_some, if_true]
    rw [htakes.inbound, List.length_cons, Nat.add_right_cancel_iff] at hlength
    rw [htaken]
    refine ⟨⟨h.serving, ?_, h.sorted, hlength, ?_⟩, ?_⟩
    · exact (htakes.connections.trans hrests.connections) ▸ h.session
    · exact (htakes.outbound.trans hrests.outbound) ▸ h.outbound
    · rw [← List.length_pos_iff, htakes.pending]
      exact MatchingEngineService.length_responses_pos _ _ _ _

/-- A client sends cancels. All but one are read before the engine thread takes the first, and
the last one is read before that is answered. -/
def burst (first : List CancelOrder) (last : CancelOrder) : List GatewayEvent :=
  [.accept ((first ++ [last]).flatMap cancelFrame)] ++
    (List.replicate first.length arrival).flatten ++ [.engine, .engine, .engine] ++ arrival

/-- A burst that fills the inbound queue leaves more to answer than the outbound queue holds. -/
theorem burst_backlog {first : List CancelOrder} {last : CancelOrder}
    (hsorted : (first ++ [last]).Pairwise fun a b => a.sequence.value < b.sequence.value)
    (hlength : first.length = 4096) :
    (run none none (burst first last)).main = .serving ∧
      4096 < (run none none (burst first last)).exchange.backlog := by
  have hstart : (run none none [.accept ((first ++ [last]).flatMap cancelFrame)]).Sending
      (first ++ [last]) 0 :=
    ⟨rfl, ⟨_, rfl, rfl, rfl, fun order _ => order.sequence.pos⟩, hsorted, rfl, rfl⟩
  obtain ⟨hfull, hcall, hengine⟩ := hstart.arrivals (by omega)
  rw [← run_append] at hfull hcall hengine
  rw [show 0 + first.length = 4095 + 1 by omega] at hfull
  obtain ⟨htaken, hanswer⟩ := hfull.take (run_sound none none _) hcall hengine
  obtain ⟨hread, hcall', -⟩ := htaken.arrive (by omega)
  rw [Exchange.pending, ← hcall', ← run_append, ← run_append] at hanswer
  rw [← run_append, ← run_append] at hread
  refine ⟨hread.serving, ?_⟩
  have hpositive := List.length_pos_iff.mpr hanswer
  have hanswers := MatchingEngineService.length_le_length_answers
    (run none none (burst first last)).exchange.engine.service.book
    (run none none (burst first last)).exchange.engine.service.orderSessions
    (run none none (burst first last)).exchange.engine.service.inbound.items
  have hinbound : (run none none (burst first last)).exchange.engine.service.inbound.items.length =
    4095 + 1 := hread.inbound
  change 0 < (run none none (burst first last)).exchange.pending.length at hpositive
  rw [Exchange.backlog]
  omega

def cancel (i : Fin 4097) : CancelOrder :=
  ⟨⟨i + 1, by omega, by have := i.isLt; omega⟩, OrderId.of 1⟩

theorem cancel_sorted : ((List.finRange 4096).map (fun i => cancel i.castSucc) ++
    [cancel (Fin.last 4096)]).Pairwise fun a b => a.sequence.value < b.sequence.value := by
  rw [List.pairwise_append, List.pairwise_map]
  refine ⟨(List.pairwise_lt_finRange 4096).imp fun hlt => Nat.succ_lt_succ hlt,
    List.pairwise_singleton _ _, ?_⟩
  simp only [List.mem_map, List.mem_singleton]
  rintro _ ⟨i, -, rfl⟩ _ rfl
  exact Nat.succ_lt_succ i.isLt

def overload : List GatewayEvent :=
  burst ((List.finRange 4096).map fun i => cancel i.castSucc) (cancel (Fin.last 4096)) ++
    .signal :: List.replicate engineSteps .engine

/-- Whatever comes after, the join does not return. -/
theorem overload_wedged : (run none none overload).Wedged ∧
    ∀ more, (run none none (overload ++ more)).Wedged ∧
      (run none none (overload ++ more)).main ≠ .joined := by
  obtain ⟨hserving, hbacklog⟩ := burst_backlog cancel_sorted
    (by rw [List.length_map, List.length_finRange])
  have hwedged : (run none none overload).Wedged := by
    rw [overload, run_append]
    exact signal_wedges (run_sound none none _) hserving hbacklog le_rfl
  refine ⟨hwedged, fun more => ?_⟩
  have hafter : (run none none (overload ++ more)).Wedged := by
    rw [run_append]
    exact hwedged.runFrom more
  refine ⟨hafter, fun hjoined => ?_⟩
  obtain ⟨count, hprocessing⟩ := hafter.processing
  have hexited := (run_sound none none _).joined hjoined
  cases hprocessing.symm.trans hexited

end GatewayRun

end LowLatencyExchange
