import LowLatencyExchange.Engine.Run
import LowLatencyExchange.Gateway.Sending
import Mathlib.Tactic

/-!
# The exchange

`TcpGateway` with all its sessions and `MatchingEngineService`, joined by the inbound and the
outbound queue, which are bounded first-in first-out queues. The gateway handles one completion
at a time, and the engine runs beside it.

The session map `sessions_` is the connections that are registered. They are told apart by
their session ids, which are distinct before the counter wraps.
-/
namespace LowLatencyExchange

abbrev OutboundQueue := BoundedFifo 4096 OutboundMessage

/-- Where the engine thread is in `process_one`. -/
inductive EngineCall where
  /-- In no call. -/
  | idle
  /-- Behind `inbound_.size()`, in front of `inbound_.try_pop`. -/
  | sized
  /-- In the handler, behind the book, with the messages that it has still to push. It will return
  `accepted`. -/
  | answering (message : InboundMessage) (accepted : Bool) (pending : List OutboundMessage)

def EngineCall.pending : EngineCall → List OutboundMessage
  | .idle | .sized => []
  | .answering _ _ pending => pending

/-- `process_one` has taken a message and not yet returned. -/
def EngineCall.handling : EngineCall → Bool
  | .idle | .sized => false
  | .answering _ _ _ => true

theorem EngineCall.pending_of_not_handling {call : EngineCall} (h : call.handling = false) :
    call.pending = [] := by
  cases call with
  | answering message accepted pending => cases h
  | _ => rfl

structure Exchange where
  /-- The connections, in the order accepted. -/
  sessions : List SessionRun
  nextSessionId : UInt64
  engine : EngineRun
  call : EngineCall
  outbound : OutboundQueue

/-- Sessions are named by the number of connections accepted before. -/
inductive ExchangeEvent where
  /-- A client connects, who will send these bytes. -/
  | accept (stream : List UInt8)
  /-- The outstanding `async_read` of a session completes. -/
  | read (session : Nat) (error : Bool)
  /-- The outstanding `async_write` of a session completes. -/
  | write (session : Nat) (error : Bool)
  | unregister (sessionId : UInt64)
  /-- `process_one` is called, or takes a step between its pushes. -/
  | process
  /-- `process_one` tries to push its next message. -/
  | push
  /-- `poll_outbound` tries to pop its next message. -/
  | poll
  deriving DecidableEq

namespace Exchange

/-- `inbound_.try_push` succeeds. -/
def hasRoom (e : Exchange) (_ : Nat) : Bool := e.engine.service.inbound.size < 4096

/-- `do_accept` -/
def accept (e : Exchange) (stream : List UInt8) : Exchange :=
  { e with
    sessions := e.sessions ++ [SessionRun.start e.nextSessionId stream]
    nextSessionId := e.nextSessionId + 1 }

/-- The read handler of a session, with the messages that it pushes. -/
def read (e : Exchange) (session : Nat) (error : Bool) : Exchange :=
  match e.sessions[session]? with
  | none => e
  | some r =>
    let r' := r.read e.hasRoom error
    let messages := r'.connection.pushed.drop r.connection.pushed.length
    { e with
      sessions := e.sessions.set session r'
      engine := messages.foldl (fun engine message => engine.step (.receive message)) e.engine }

/-- `process_one` without its pushes. Until it returns, no other thread sees what the handler does
but to the outbound queue. The command is captured and the book is published behind the last push. -/
def process (e : Exchange) : Exchange :=
  match e.call with
  | .idle =>
    { e with
      engine := { e.engine with service := e.engine.service.recordInboundOccupancy }
      call := .sized }
  | .sized =>
    match e.engine.service.inbound.tryPop with
    | none => { e with call := .idle }
    | some (message, inbound) =>
      let service := { e.engine.service with inbound := inbound }
      let (service, accepted) := service.handleCommand message.sessionId message.command
      { e with
        engine := ⟨service, e.engine.processed ++ [message]⟩
        call := .answering message accepted
          (service.outbound.drop e.engine.service.outbound.length) }
  | .answering message accepted [] =>
    { e with
      engine := { e.engine with service := e.engine.service.finishMessage message accepted }
      call := .idle }
  | .answering _ _ (_ :: _) => e

/-- One turn of the loop of `push_outbound`. -/
def push (e : Exchange) : Exchange :=
  match e.call with
  | .answering message accepted (msg :: pending) =>
    match e.outbound.tryPush msg with
    | none => e
    | some outbound =>
      { e with call := .answering message accepted pending, outbound := outbound }
  | _ => e

/-- One turn of the loop of `poll_outbound`. -/
def poll (e : Exchange) : Exchange :=
  match e.outbound.tryPop with
  | none => e
  | some (message, outbound) =>
    { e with sessions := e.sessions.map (SessionRun.poll message), outbound := outbound }

def step (e : Exchange) : ExchangeEvent → Exchange
  | .accept stream => e.accept stream
  | .read session error => e.read session error
  | .write session error => { e with sessions := e.sessions.modify session (SessionRun.write error) }
  | .unregister sessionId => { e with sessions := e.sessions.map (SessionRun.erase sessionId) }
  | .process => e.process
  | .push => e.push
  | .poll => e.poll

section

variable (marketDataFeed : Option (MarketDataFeed × MarketDataQueue))
  (eventCaptureFeed : Option (EventCaptureFeed × EventCaptureQueue))

def start : Exchange :=
  ⟨[], 1, EngineRun.start marketDataFeed eventCaptureFeed, .idle, BoundedFifo.empty⟩

def run (events : List ExchangeEvent) : Exchange :=
  Transducer.run (fun e event => (step e event, ())) (start marketDataFeed eventCaptureFeed) events

end

/-- The messages that the running `process_one` has still to push. -/
def pending (e : Exchange) : List OutboundMessage := e.call.pending

/-- The messages whose `process_one` has returned. -/
def finished (e : Exchange) : List InboundMessage :=
  match e.call with
  | .idle | .sized => e.engine.processed
  | .answering _ _ _ => e.engine.processed.dropLast

/-- The messages that sessions have pushed, in order. -/
def received (e : Exchange) : List InboundMessage :=
  e.engine.processed ++ e.engine.service.inbound.items

/-! ## What a step does -/

/-- The steps of `process_one` without its pushes. -/
inductive ProcessStep (e : Exchange) : Exchange → Prop
  | size (hcall : e.call = .idle) :
      ProcessStep e
        { e with
          engine := { e.engine with service := e.engine.service.recordInboundOccupancy }
          call := .sized }
  | none (hcall : e.call = .sized) (hempty : e.engine.service.inbound.items = []) :
      ProcessStep e { e with call := .idle }
  | take (message : InboundMessage) (inbound : InboundQueue) (service : MatchingEngineService)
      (accepted : Bool) (hcall : e.call = .sized)
      (hinbound : e.engine.service.inbound.items = message :: inbound.items)
      (hhandled : { e.engine.service with inbound := inbound }.handleCommand message.sessionId
        message.command = (service, accepted)) :
      ProcessStep e
        { e with
          engine := ⟨service, e.engine.processed ++ [message]⟩
          call := .answering message accepted
            (service.outbound.drop e.engine.service.outbound.length) }
  | finish (message : InboundMessage) (accepted : Bool)
      (hcall : e.call = .answering message accepted []) :
      ProcessStep e
        { e with
          engine := { e.engine with service := e.engine.service.finishMessage message accepted }
          call := .idle }
  | pushing (hpending : e.pending ≠ []) : ProcessStep e e

theorem pending_of_call {e : Exchange} {call : EngineCall} (h : e.call = call) :
    e.pending = call.pending := by
  rw [pending, h]

/-- Messages are pending in a handler only. -/
theorem call_of_pending {e : Exchange} (h : e.pending ≠ []) : ∃ message accepted msg pending,
    e.call = .answering message accepted (msg :: pending) := by
  cases hcall : e.call with
  | answering message accepted pending =>
    cases pending with
    | nil => exact absurd (pending_of_call hcall) h
    | cons msg pending => exact ⟨message, accepted, msg, pending, rfl⟩
  | _ => exact absurd (pending_of_call hcall) h

theorem process_step (e : Exchange) : ProcessStep e e.process := by
  unfold process
  split
  · next hcall => exact .size hcall
  · next hcall =>
    split
    · next hpop => exact .none hcall (BoundedFifo.items_of_tryPop_none hpop)
    · next message inbound hpop =>
      exact .take message inbound _ _ hcall (BoundedFifo.items_of_tryPop hpop) rfl
  · next message accepted hcall => exact .finish message accepted hcall
  · next message accepted msg pending hcall =>
    exact .pushing (by simp [pending_of_call hcall, EngineCall.pending])

inductive PushStep (e : Exchange) : Exchange → Prop
  | push (message : InboundMessage) (accepted : Bool) (msg : OutboundMessage)
      (pending : List OutboundMessage) (outbound : OutboundQueue)
      (hcall : e.call = .answering message accepted (msg :: pending))
      (houtbound : outbound.items = e.outbound.items ++ [msg]) :
      PushStep e { e with call := .answering message accepted pending, outbound := outbound }
  | full (hpending : e.pending ≠ []) (hfull : e.outbound.size = 4096) : PushStep e e
  | none (hpending : e.pending = []) : PushStep e e

theorem push_step (e : Exchange) : PushStep e e.push := by
  unfold push
  split
  · next message accepted msg pending hcall =>
    cases hpush : e.outbound.tryPush msg with
    | none =>
      exact .full (by simp [pending_of_call hcall, EngineCall.pending])
        (BoundedFifo.tryPush_eq_none.mp hpush)
    | some outbound =>
      exact .push message accepted msg pending outbound hcall (BoundedFifo.items_of_tryPush hpush)
  · next hother =>
    refine .none ?_
    by_contra hpending
    obtain ⟨message, accepted, msg, pending, hcall⟩ := call_of_pending hpending
    exact hother message accepted msg pending hcall

theorem process_sessions (e : Exchange) : e.process.sessions = e.sessions := by
  have hprocess := e.process_step
  generalize e.process = e' at hprocess
  cases hprocess <;> rfl

theorem push_sessions (e : Exchange) : e.push.sessions = e.sessions := by
  have hpush := e.push_step
  generalize e.push = e' at hpush
  cases hpush <;> rfl

/-- `process_one` loses no command, and none arrives. -/
theorem process_received (e : Exchange) : e.process.received = e.received := by
  have hprocess := e.process_step
  generalize e.process = e' at hprocess
  cases hprocess with
  | take message inbound service accepted hcall hinbound hhandled =>
    have hanswers := (MatchingEngineService.handleCommand_spec
      { e.engine.service with inbound := inbound } message.sessionId message.command).2
    rw [hhandled] at hanswers
    have hitems : service.inbound = inbound := hanswers.inbound
    simp only [received, hitems, hinbound, List.append_assoc, List.singleton_append]
  | size | none | finish | pushing => rfl

theorem push_received (e : Exchange) : e.push.received = e.received := by
  have hpush := e.push_step
  generalize e.push = e' at hpush
  cases hpush <;> rfl

/-- What a read pushes waits in the inbound queue. -/
theorem receive_waits (messages : List InboundMessage) (engine : EngineRun) :
    ∃ inbound, messages.foldl (fun engine message => engine.step (.receive message)) engine =
      { engine with service := { engine.service with inbound := inbound } } := by
  induction messages generalizing engine with
  | nil => exact ⟨_, rfl⟩
  | cons message messages ih =>
    obtain ⟨inbound, hrest⟩ := ih (engine.step (.receive message))
    refine ⟨inbound, hrest.trans ?_⟩
    rw [EngineRun.step]
    split <;> rfl

/-- A rule of the engine's calls holds in the exchange. -/
theorem step_rule {inv : MatchingEngineService → List InboundMessage → Prop}
    (rule : EngineRun.CallRule inv) {e : Exchange} (h : inv e.engine.service e.engine.processed)
    (event : ExchangeEvent) :
    inv (e.step event).engine.service (e.step event).engine.processed := by
  cases event with
  | accept stream => exact h
  | read session error =>
    simp only [step, read]
    split
    · exact h
    · obtain ⟨inbound, hengine⟩ := receive_waits _ e.engine
      rw [hengine]
      exact rule.inbound h inbound
  | write session error => exact h
  | unregister sessionId => exact h
  | process =>
    have hprocess := e.process_step
    simp only [step]
    generalize e.process = e' at hprocess
    cases hprocess with
    | size hcall => exact rule.occupancy h
    | take message inbound service accepted hcall hinbound hhandled =>
      have hhandle := rule.handle (rule.inbound h inbound) message
      rwa [hhandled] at hhandle
    | finish message accepted hcall => exact rule.finish h message accepted
    | none | pushing => exact h
  | push =>
    have hpush := e.push_step
    simp only [step]
    generalize e.push = e' at hpush
    cases hpush <;> exact h
  | poll =>
    simp only [step, poll]
    split <;> exact h

/-- A property that tells the messages that were handled from those whose calls have returned. In
a call these differ by its message. -/
structure CallInv
    (inv : MatchingEngineService → List InboundMessage → List InboundMessage → Prop)
    (e : Exchange) : Prop where
  holds : inv e.engine.service e.engine.processed e.finished
  answering : ∀ {message accepted pending}, e.call = .answering message accepted pending →
    e.engine.processed = e.finished ++ [message] ∧
    accepted =
      ((OrderBook.run (e.finished.map InboundMessage.command)).step message.command).2.accepted

theorem finished_of_not_handling {e : Exchange} (h : e.call.handling = false) :
    e.finished = e.engine.processed := by
  unfold finished
  split
  · rfl
  · rfl
  · next hcall =>
    rw [hcall] at h
    cases h

theorem finished_of_call {e e' : Exchange} (hcall : e'.call = e.call)
    (hprocessed : e'.engine.processed = e.engine.processed) : e'.finished = e.finished := by
  rw [finished, finished, hcall, hprocessed]

namespace CallInv

variable {inv : MatchingEngineService → List InboundMessage → List InboundMessage → Prop}
  {e : Exchange}

/-- What happens beside the call. -/
theorem beside (h : CallInv inv e) {e' : Exchange} (hcall : e'.call = e.call)
    (hprocessed : e'.engine.processed = e.engine.processed)
    (hholds : inv e'.engine.service e.engine.processed e.finished) : CallInv inv e' := by
  have hfinished := finished_of_call hcall hprocessed
  refine ⟨by rwa [hprocessed, hfinished], fun {message accepted pending} hanswering => ?_⟩
  rw [hprocessed, hfinished]
  exact h.answering (hcall ▸ hanswering)

theorem process (h : CallInv inv e) (rule : EngineRun.FinishRule inv) :
    CallInv inv e.process := by
  have hholds := h.holds
  have hprocess := e.process_step
  generalize e.process = e' at hprocess
  cases hprocess with
  | size hcall =>
    rw [finished_of_not_handling (by rw [hcall]; rfl)] at hholds
    exact ⟨rule.occupancy hholds, fun hanswering => by cases hanswering⟩
  | none hcall hempty =>
    rw [finished_of_not_handling (by rw [hcall]; rfl)] at hholds
    exact ⟨hholds, fun hanswering => by cases hanswering⟩
  | take message inbound service accepted hcall hinbound hhandled =>
    rw [finished_of_not_handling (by rw [hcall]; rfl)] at hholds
    have hpopped := rule.inbound hholds inbound
    have haccepted := (MatchingEngineService.handleCommand_spec { e.engine.service with inbound := inbound }
      message.sessionId message.command).1
    have hhandle := rule.handle hpopped message
    rw [hhandled] at haccepted hhandle
    refine ⟨?_, fun hanswering => ?_⟩
    · simpa only [finished, List.dropLast_concat] using hhandle
    · cases hanswering
      simp only [finished, List.dropLast_concat, true_and]
      rw [← rule.book hpopped]
      exact haccepted
  | finish message accepted hcall =>
    obtain ⟨hprocessed, haccepted⟩ := h.answering hcall
    rw [hprocessed] at hholds
    refine ⟨?_, fun hanswering => by cases hanswering⟩
    change inv _ e.engine.processed e.engine.processed
    rw [hprocessed]
    exact rule.finish hholds haccepted
  | pushing hpending => exact h

theorem push (h : CallInv inv e) : CallInv inv e.push := by
  have hpush := e.push_step
  generalize e.push = e' at hpush
  cases hpush with
  | push message accepted msg pending outbound hcall houtbound =>
    have hfinished : e.finished = e.engine.processed.dropLast := by rw [finished, hcall]
    have hholds := h.holds
    have hanswers := h.answering hcall
    rw [hfinished] at hholds hanswers
    refine ⟨hholds, fun hanswering => ?_⟩
    cases hanswering
    exact hanswers
  | full | none => exact h

theorem poll (h : CallInv inv e) : CallInv inv e.poll := by
  unfold Exchange.poll
  split
  · exact h
  · exact h.beside rfl rfl h.holds

/-- A rule that tells these messages apart holds in the exchange. -/
theorem step (h : CallInv inv e) (rule : EngineRun.FinishRule inv) (event : ExchangeEvent) :
    CallInv inv (e.step event) := by
  cases event with
  | accept stream => exact h.beside rfl rfl h.holds
  | read session error =>
    simp only [Exchange.step, Exchange.read]
    split
    · exact h
    · obtain ⟨inbound, hengine⟩ := receive_waits _ e.engine
      rw [hengine]
      exact h.beside rfl rfl (rule.inbound h.holds inbound)
  | write session error => exact h.beside rfl rfl h.holds
  | unregister sessionId => exact h.beside rfl rfl h.holds
  | process => exact h.process rule
  | push => exact h.push
  | poll => exact h.poll

end CallInv

end Exchange

end LowLatencyExchange
