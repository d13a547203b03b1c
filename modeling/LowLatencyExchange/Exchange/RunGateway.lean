import LowLatencyExchange.Exchange.Invariant
import Mathlib.Tactic

/-!
# The threads of `run_gateway`

The main thread runs the handlers of the io context, one at a time, until the signal handler has
stopped the gateway and the io context. Then it requests the engine thread to stop, and joins it.
The engine thread looks at the request between two calls of `process_available`, and nowhere else.

The threads that publish market data and that record events pop queues of their own. The engine
never waits for these, so they are left out.
-/
namespace LowLatencyExchange

open MatchingEngineService

inductive MainPhase where
  /-- In `io_ctx.run()`, with no handler running. -/
  | serving
  /-- In `poll_outbound`, which the handler of the drain timer calls. -/
  | draining
  /-- `io_ctx.run()` has returned. -/
  | returned
  /-- In `engine_thread.join()`, behind `request_stop()`. -/
  | joining
  | joined
  deriving DecidableEq

/-- The signal handler has run. -/
def MainPhase.signalled : MainPhase → Bool
  | .serving | .draining => false
  | .returned | .joining | .joined => true

def MainPhase.stopRequested : MainPhase → Bool
  | .serving | .draining | .returned => false
  | .joining | .joined => true

inductive EnginePhase where
  /-- At the condition of the loop of the thread. -/
  | checking
  /-- In `process_available`, with what it has counted. -/
  | processing (count : Nat)
  | sleeping
  | exited
  deriving DecidableEq

structure GatewayRun where
  exchange : Exchange
  main : MainPhase
  engine : EnginePhase

inductive GatewayEvent where
  /-- A handler of the io context runs: a client has connected, a read or a write is complete. -/
  | accept (stream : List UInt8)
  | read (session : Nat) (error : Bool)
  | write (session : Nat) (error : Bool)
  /-- One turn of the loop of `poll_outbound`. -/
  | drain
  /-- The signal handler runs. -/
  | signal
  /-- The main thread takes a step behind `io_ctx.run()`. -/
  | main
  /-- The engine thread takes a step. -/
  | engine
  deriving DecidableEq

/-- `TcpGateway::stop`: the sessions in the map are closed, and the map is cleared. -/
def Exchange.stop (e : Exchange) : Exchange :=
  { e with sessions := e.sessions.map fun r =>
      if r.connection.registered then r.react fun c => TcpSession.unregister (TcpSession.close c)
      else r }

namespace GatewayRun

def handle (r : GatewayRun) (event : ExchangeEvent) : GatewayRun :=
  match r.main with
  | .serving => { r with exchange := r.exchange.step event }
  | _ => r

def drain (r : GatewayRun) : GatewayRun :=
  match r.main with
  | .serving | .draining =>
    { r with
      exchange := r.exchange.poll
      main := if r.exchange.outbound.tryPop.isSome then .draining else .serving }
  | _ => r

def signal (r : GatewayRun) : GatewayRun :=
  match r.main with
  | .serving => { r with exchange := r.exchange.stop, main := .returned }
  | _ => r

/-- `join` returns when the engine thread has ended. -/
def mainStep (r : GatewayRun) : GatewayRun :=
  match r.main with
  | .returned => { r with main := .joining }
  | .joining => if r.engine = .exited then { r with main := .joined } else r
  | _ => r

/-- A command counts when `process_one` has returned. While there are messages pending, it is in
`push_outbound`. -/
def engineStep (r : GatewayRun) : GatewayRun :=
  match r.engine with
  | .checking => { r with engine := if r.main.stopRequested then .exited else .processing 0 }
  | .processing count =>
    match r.exchange.call with
    | .idle => { r with exchange := r.exchange.process }
    | .sized =>
      { r with
        exchange := r.exchange.process
        engine :=
          if r.exchange.engine.service.inbound.tryPop.isSome then .processing count
          else if count = 0 then .sleeping
          else .checking }
    | .answering _ _ [] =>
      { r with exchange := r.exchange.process, engine := .processing (count + 1) }
    | .answering _ _ (_ :: _) => { r with exchange := r.exchange.push }
  | .sleeping => { r with engine := .checking }
  | .exited => r

theorem engineStep_exchange (r : GatewayRun) : r.engineStep.exchange = r.exchange ∨
    r.engineStep.exchange = r.exchange.process ∨ r.engineStep.exchange = r.exchange.push := by
  unfold engineStep
  split
  · exact .inl rfl
  · split
    · exact .inr (.inl rfl)
    · exact .inr (.inl rfl)
    · exact .inr (.inl rfl)
    · exact .inr (.inr rfl)
  · exact .inl rfl
  · exact .inl rfl

def step (r : GatewayRun) : GatewayEvent → GatewayRun
  | .accept stream => r.handle (.accept stream)
  | .read session error => r.handle (.read session error)
  | .write session error => r.handle (.write session error)
  | .drain => r.drain
  | .signal => r.signal
  | .main => r.mainStep
  | .engine => r.engineStep

section

variable (marketDataFeed : Option (MarketDataFeed × MarketDataQueue))
  (eventCaptureFeed : Option (EventCaptureFeed × EventCaptureQueue))

def start : GatewayRun := ⟨Exchange.start marketDataFeed eventCaptureFeed, .serving, .checking⟩

def run (events : List GatewayEvent) : GatewayRun :=
  Transducer.run (fun r event => (step r event, ())) (start marketDataFeed eventCaptureFeed) events

end

end GatewayRun

/-! ## The engine in the exchange -/

namespace Exchange

/-- `process_one` takes a message off the inbound queue. -/
structure Takes (e e' : Exchange) (message : InboundMessage) : Prop where
  inbound : e.engine.service.inbound.items = message :: e'.engine.service.inbound.items
  book : e'.engine.service.book = (e.engine.service.book.step message.command).1
  orderSessions : e'.engine.service.orderSessions =
    nextSessions message.sessionId e.engine.service.book e.engine.service.orderSessions
      message.command
  call : ∃ accepted, e'.call = .answering message accepted
    (responses message.sessionId e.engine.service.book e.engine.service.orderSessions.lookup
      message.command)
  processed : e'.engine.processed = e.engine.processed ++ [message]
  outbound : e'.outbound = e.outbound
  connections : e'.sessions = e.sessions

/-- A step of `process_one` that takes no message and pushes none. -/
structure Rests (e e' : Exchange) : Prop where
  inbound : e'.engine.service.inbound = e.engine.service.inbound
  book : e'.engine.service.book = e.engine.service.book
  orderSessions : e'.engine.service.orderSessions = e.engine.service.orderSessions
  processed : e'.engine.processed = e.engine.processed
  pending : e'.pending = e.pending
  outbound : e'.outbound = e.outbound
  connections : e'.sessions = e.sessions

variable {e e' : Exchange}

theorem Takes.pending {message : InboundMessage} (h : Takes e e' message) :
    e'.pending = responses message.sessionId e.engine.service.book
      e.engine.service.orderSessions.lookup message.command := by
  obtain ⟨accepted, hcall⟩ := h.call
  exact pending_of_call hcall

theorem process_sizes (hcall : e.call = .idle) : Rests e e.process ∧ e.process.call = .sized := by
  simp only [process, hcall]
  exact ⟨⟨rfl, rfl, rfl, rfl, (pending_of_call hcall).symm, rfl, rfl⟩, trivial⟩

theorem process_none (hcall : e.call = .sized)
    (hpop : e.engine.service.inbound.tryPop = none) :
    Rests e e.process ∧ e.process.call = .idle := by
  simp only [process, hcall, hpop]
  exact ⟨⟨rfl, rfl, rfl, rfl, (pending_of_call hcall).symm, rfl, rfl⟩, trivial⟩

theorem process_takes (inv : e.engine.service.book.Inv) (hcall : e.call = .sized)
    {message : InboundMessage} {inbound : InboundQueue}
    (hpop : e.engine.service.inbound.tryPop = some (message, inbound)) :
    Takes e e.process message := by
  have hprocessed := handleCommand_processed
    (s := { e.engine.service with inbound := inbound }) inv message
  have hanswers := (handleCommand_spec { e.engine.service with inbound := inbound }
    message.sessionId message.command).2
  have houtbound := hprocessed.outbound
  simp only [process, hcall, hpop]
  refine ⟨?_, hprocessed.book, hprocessed.orderSessions,
    ⟨_, congrArg (EngineCall.answering message _) ?_⟩, rfl, rfl, rfl⟩
  · rw [BoundedFifo.items_of_tryPop hpop, hanswers.inbound]
  · rw [houtbound, List.drop_left]

theorem process_finishes {message : InboundMessage} {accepted : Bool}
    (hcall : e.call = .answering message accepted []) :
    Rests e e.process ∧ e.process.call = .idle := by
  simp only [process, hcall]
  exact ⟨⟨rfl, rfl, rfl, rfl, (pending_of_call hcall).symm, rfl, rfl⟩, trivial⟩

end Exchange

namespace GatewayRun

/-! ## The engine thread -/

/-- What a step of the engine thread can do. -/
inductive EngineMove (r : GatewayRun) : GatewayRun → Prop
  | start (h : r.engine = .checking) (hstop : r.main.stopRequested = false) :
      EngineMove r { r with engine := .processing 0 }
  | exit (h : r.engine = .checking) (hstop : r.main.stopRequested = true) :
      EngineMove r { r with engine := .exited }
  | size (count : Nat) (exchange : Exchange) (h : r.engine = .processing count)
      (hcall : r.exchange.call = .idle) (hrests : r.exchange.Rests exchange)
      (hcall' : exchange.call = .sized) : EngineMove r { r with exchange := exchange }
  | take (count : Nat) (message : InboundMessage) (exchange : Exchange)
      (h : r.engine = .processing count) (hcall : r.exchange.call = .sized)
      (htakes : r.exchange.Takes exchange message) :
      EngineMove r { r with exchange := exchange }
  | push (count : Nat) (message : InboundMessage) (accepted : Bool) (msg : OutboundMessage)
      (pending : List OutboundMessage) (outbound : OutboundQueue) (h : r.engine = .processing count)
      (hcall : r.exchange.call = .answering message accepted (msg :: pending))
      (houtbound : outbound.items = r.exchange.outbound.items ++ [msg]) :
      EngineMove r
        { r with exchange :=
          { r.exchange with call := .answering message accepted pending, outbound := outbound } }
  | wait (count : Nat) (h : r.engine = .processing count) (hpending : r.exchange.pending ≠ [])
      (hfull : r.exchange.outbound.size = 4096) : EngineMove r r
  | finish (count : Nat) (message : InboundMessage) (accepted : Bool) (exchange : Exchange)
      (h : r.engine = .processing count)
      (hcall : r.exchange.call = .answering message accepted [])
      (hrests : r.exchange.Rests exchange) (hcall' : exchange.call = .idle) :
      EngineMove r { r with exchange := exchange, engine := .processing (count + 1) }
  | none (count : Nat) (exchange : Exchange) (engine : EnginePhase)
      (h : r.engine = .processing count) (hcall : r.exchange.call = .sized)
      (hempty : r.exchange.engine.service.inbound.items = [])
      (hrests : r.exchange.Rests exchange) (hcall' : exchange.call = .idle)
      (hengine : engine = .sleeping ∨ engine = .checking) :
      EngineMove r { r with exchange := exchange, engine := engine }
  | wake (h : r.engine = .sleeping) : EngineMove r { r with engine := .checking }
  | exited (h : r.engine = .exited) : EngineMove r r

variable {r r' : GatewayRun}

/-- With messages pending, the engine thread is in `push_outbound`. -/
theorem engineStep_pending {count : Nat} (hengine : r.engine = .processing count)
    (hpending : r.exchange.pending ≠ []) :
    r.engineStep = { r with exchange := r.exchange.push } := by
  obtain ⟨message, accepted, msg, pending, hcall⟩ := Exchange.call_of_pending hpending
  simp only [engineStep, hengine, hcall]

theorem engineStep_move (inv : r.exchange.engine.service.book.Inv) : EngineMove r r.engineStep := by
  cases hengine : r.engine with
  | checking =>
    simp only [engineStep, hengine]
    cases hstop : r.main.stopRequested with
    | false => exact .start hengine hstop
    | true => exact .exit hengine hstop
  | processing count =>
    cases hcall : r.exchange.call with
    | idle =>
      obtain ⟨hrests, hcall'⟩ := Exchange.process_sizes hcall
      simp only [engineStep, hengine, hcall]
      rw [← hengine]
      exact .size count _ hengine hcall hrests hcall'
    | sized =>
      simp only [engineStep, hengine, hcall]
      cases hpop : r.exchange.engine.service.inbound.tryPop with
      | none =>
        obtain ⟨hrests, hcall'⟩ := Exchange.process_none hcall hpop
        simp only [Option.isSome_none, Bool.false_eq_true, if_false]
        refine .none count _ _ hengine hcall (BoundedFifo.items_of_tryPop_none hpop) hrests hcall' ?_
        split_ifs
        · exact .inl rfl
        · exact .inr rfl
      | some popped =>
        simp only [Option.isSome_some, if_true]
        rw [← hengine]
        exact .take count _ _ hengine hcall (Exchange.process_takes inv hcall hpop)
    | answering message accepted pending =>
      cases pending with
      | nil =>
        obtain ⟨hrests, hcall'⟩ := Exchange.process_finishes hcall
        simp only [engineStep, hengine, hcall]
        exact .finish count message accepted _ hengine hcall hrests hcall'
      | cons msg pending =>
        have hpending : r.exchange.pending ≠ [] := by
          rw [Exchange.pending_of_call hcall]
          exact List.cons_ne_nil msg pending
        rw [engineStep_pending hengine hpending]
        simp only [Exchange.push, hcall]
        cases hpush : r.exchange.outbound.tryPush msg with
        | none => exact .wait count hengine hpending (BoundedFifo.tryPush_eq_none.mp hpush)
        | some outbound =>
          exact .push count message accepted msg pending outbound hengine hcall
            (BoundedFifo.items_of_tryPush hpush)
  | sleeping =>
    simp only [engineStep, hengine]
    exact .wake hengine
  | exited =>
    simp only [engineStep, hengine]
    exact .exited hengine

theorem EngineMove.main (h : EngineMove r r') : r'.main = r.main := by
  cases h <;> rfl

/-- A run from some state on. -/
abbrev runFrom (r : GatewayRun) (events : List GatewayEvent) : GatewayRun :=
  Transducer.run (fun r event => (step r event, ())) r events

/-! ## Runs -/

/-- What holds in every state: `process_one` runs only in `process_available`, the engine thread
ends only after it was requested to, and the join returns only after it has ended. -/
structure Sound (r : GatewayRun) : Prop where
  sessions : SessionsInv r.exchange.engine.service r.exchange.engine.processed
  calling : r.exchange.call = .idle ∨ ∃ count, r.engine = .processing count
  exited : r.engine = .exited → r.main.stopRequested = true
  joined : r.main = .joined → r.engine = .exited

namespace Sound

/-- Behind the join, no call of `process_one` is running. -/
theorem idle_of_joined (h : r.Sound) (hjoined : r.main = .joined) : r.exchange.call = .idle := by
  refine h.calling.resolve_right ?_
  rintro ⟨count, hprocessing⟩
  cases hprocessing.symm.trans (h.joined hjoined)

/-- The main thread takes a step before the stop request. -/
theorem before_stop (h : r.Sound) {exchange : Exchange} {main : MainPhase}
    (hbefore : r.main.stopRequested = false) (hafter : main.stopRequested = false)
    (hcall : exchange.call = r.exchange.call)
    (hsessions : SessionsInv exchange.engine.service exchange.engine.processed) :
    Sound { r with exchange := exchange, main := main } := by
  refine ⟨hsessions, hcall ▸ h.calling, fun hexited => ?_, fun hjoined => ?_⟩
  · rw [h.exited hexited] at hbefore
    cases hbefore
  · obtain rfl : main = .joined := hjoined
    cases hafter

theorem handle (h : r.Sound) (event : ExchangeEvent)
    (hcall : (r.exchange.step event).call = r.exchange.call) : (r.handle event).Sound := by
  unfold GatewayRun.handle
  split
  · next hmain =>
    have hbefore : r.main.stopRequested = false := by rw [hmain]; rfl
    exact h.before_stop hbefore hbefore hcall (Exchange.step_rule sessionsInv_rule h.sessions event)
  · exact h

theorem drain (h : r.Sound) : r.drain.Sound := by
  have hpoll := Exchange.step_rule sessionsInv_rule h.sessions .poll
  have hcall : r.exchange.poll.call = r.exchange.call := by
    unfold Exchange.poll
    split <;> rfl
  have hphase : (if r.exchange.outbound.tryPop.isSome then MainPhase.draining
      else .serving).stopRequested = false := by
    split_ifs <;> rfl
  unfold GatewayRun.drain
  split
  · next hmain => exact h.before_stop (by rw [hmain]; rfl) hphase hcall hpoll
  · next hmain => exact h.before_stop (by rw [hmain]; rfl) hphase hcall hpoll
  · exact h

theorem signal (h : r.Sound) : r.signal.Sound := by
  unfold GatewayRun.signal
  split
  · next hmain => exact h.before_stop (by rw [hmain]; rfl) rfl rfl h.sessions
  · exact h

theorem mainStep (h : r.Sound) : r.mainStep.Sound := by
  unfold GatewayRun.mainStep
  split
  · exact ⟨h.sessions, h.calling, fun _ => rfl, nofun⟩
  · split_ifs with hexited
    · exact ⟨h.sessions, h.calling, fun _ => rfl, fun _ => hexited⟩
    · exact h
  · exact h

theorem engineStep (h : r.Sound) : r.engineStep.Sound := by
  have hmove := engineStep_move h.sessions.inv
  refine ⟨?_, ?_, ?_, ?_⟩
  · rcases r.engineStep_exchange with hsame | hprocess | hpush
    · exact hsame ▸ h.sessions
    · exact hprocess ▸ Exchange.step_rule sessionsInv_rule h.sessions .process
    · exact hpush ▸ Exchange.step_rule sessionsInv_rule h.sessions .push
  · generalize r.engineStep = r' at hmove
    have hcalling := h.calling
    cases hmove with
    | size count | take count | push count => exact .inr ⟨count, by assumption⟩
    | finish => exact .inr ⟨_, rfl⟩
    | none count exchange engine hprocessing hcall hempty hrests hcall' => exact .inl hcall'
    | wait | exited => exact hcalling
    | start hphase | exit hphase | wake hphase =>
      exact .inl (hcalling.resolve_right fun ⟨_, hprocessing⟩ => by
        cases hphase.symm.trans hprocessing)
  · rw [hmove.main]
    generalize r.engineStep = r' at hmove
    intro hexited
    cases hmove with
    | exit hchecking hstop => exact hstop
    | none count exchange engine hprocessing hcall hempty hrests hcall' hengine =>
      rcases hengine with rfl | rfl <;> cases hexited
    | size | take | push | wait | exited => exact h.exited hexited
    | start | finish | wake => cases hexited
  · rw [hmove.main]
    intro hjoined
    simp only [GatewayRun.engineStep, h.joined hjoined]

theorem step (h : r.Sound) (event : GatewayEvent) : (r.step event).Sound := by
  cases event with
  | accept stream => exact h.handle _ rfl
  | read session error =>
    refine h.handle _ ?_
    simp only [Exchange.step, Exchange.read]
    split <;> rfl
  | write session error => exact h.handle _ rfl
  | drain => exact h.drain
  | signal => exact h.signal
  | main => exact h.mainStep
  | engine => exact h.engineStep

theorem runFrom (h : r.Sound) (events : List GatewayEvent) : (r.runFrom events).Sound :=
  Transducer.run_invariant Sound (fun _ event h => h.step event) h events

end Sound

/-- A rule that tells the messages whose calls have returned apart holds beside all threads. -/
theorem step_call {inv : MatchingEngineService → List InboundMessage → List InboundMessage → Prop}
    (rule : EngineRun.FinishRule inv) (h : Exchange.CallInv inv r.exchange) (event : GatewayEvent) :
    Exchange.CallInv inv (r.step event).exchange := by
  have hhandle : ∀ event, Exchange.CallInv inv (r.handle event).exchange := by
    intro event
    unfold handle
    split
    · exact h.step rule event
    · exact h
  cases event with
  | accept stream => exact hhandle _
  | read session error => exact hhandle _
  | write session error => exact hhandle _
  | drain =>
    simp only [step, drain]
    split
    · exact h.poll
    · exact h.poll
    · exact h
  | signal =>
    simp only [step, signal]
    split
    · exact h.beside rfl rfl h.holds
    · exact h
  | main =>
    simp only [step, mainStep]
    split
    · exact h
    · split_ifs <;> exact h
    · exact h
  | engine =>
    rcases r.engineStep_exchange with hsame | hprocess | hpush
    · exact hsame ▸ h
    · exact hprocess ▸ h.process rule
    · exact hpush ▸ h.push

/-- The engine thread leaves the main thread where it is. -/
theorem main_of_engine (h : r.Sound) (n : Nat) :
    (runFrom r (List.replicate n .engine)).main = r.main := by
  induction n generalizing r with
  | zero => rfl
  | succ n ih => exact (ih h.engineStep).trans (engineStep_move h.sessions.inv).main

section

variable (marketDataFeed : Option (MarketDataFeed × MarketDataQueue))
  (eventCaptureFeed : Option (EventCaptureFeed × EventCaptureQueue))

theorem run_append (events more : List GatewayEvent) :
    run marketDataFeed eventCaptureFeed (events ++ more) =
      runFrom (run marketDataFeed eventCaptureFeed events) more :=
  Transducer.run_append _ _ _ _

theorem start_sound : (start marketDataFeed eventCaptureFeed).Sound where
  sessions := sessionsInv_rule.start marketDataFeed eventCaptureFeed
  calling := .inl rfl
  exited h := by cases h
  joined h := by cases h

theorem run_sound (events : List GatewayEvent) :
    (run marketDataFeed eventCaptureFeed events).Sound :=
  (start_sound marketDataFeed eventCaptureFeed).runFrom events

end

end GatewayRun

end LowLatencyExchange
