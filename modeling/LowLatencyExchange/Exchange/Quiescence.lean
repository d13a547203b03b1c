import LowLatencyExchange.Exchange.Shutdown
import LowLatencyExchange.Library.Fairness
import Mathlib.Tactic

/-!
# Quiet clients

Once the clients have stopped to connect and to send, what is left are the engine thread, the
drain timer and the writes. If these go on, every command in the inbound queue is answered, and
the answers are written.
-/
namespace LowLatencyExchange

open Protocol MatchingEngineService TcpSession

/-! ## Writes do not stop -/

namespace TcpSession

/-- A registered session with frames to write has a write outstanding. -/
def Writes (c : Connection) : Prop :=
  c.registered = true → c.writeQueue ≠ [] → c.writing = true

variable {c : Connection}

theorem sendRawFrame_writes (h : Writes c) (frame : QueuedFrame) : Writes (sendRawFrame c frame) := by
  intro hregistered hqueue
  rw [sendRawFrame_registered] at hregistered
  rw [sendRawFrame_writing, Bool.or_eq_true]
  by_cases hempty : c.writeQueue = []
  · right
    by_cases hnone : frame.bytes = [] ∨ c.isOpen = false
    · rw [sendRawFrame_of_closed c hnone] at hqueue
      exact absurd hempty hqueue
    · obtain ⟨hbytes, hopen⟩ := not_or.mp hnone
      exact decide_eq_true ⟨hbytes, by simpa using hopen, hempty⟩
  · exact .inl (h hregistered hempty)

theorem sendProtocolError_writes (h : Writes c) (code : ErrorCode) (type : UInt8) :
    Writes (sendProtocolError c code type) := by
  rw [sendProtocolError_eq]
  apply sendRawFrame_writes
  exact h

theorem Writes.of_view {c' : Connection} (h : Writes c) (hview : writerView c' = writerView c)
    (hregistered : c'.registered = true → c.registered = true) : Writes c' := by
  simp only [writerView, WriterView.mk.injEq] at hview
  obtain ⟨-, hqueue, hwriting, -, -, -⟩ := hview
  intro hnow
  rw [hqueue, hwriting]
  exact h (hregistered hnow)

theorem onRead_writes (h : Writes c) (tryPush : Nat → Bool) (error : Bool) :
    Writes (onRead tryPush c error) := by
  have heffect := onRead_effect tryPush c error
  have hregistered := onRead_registered c tryPush error
  generalize onRead tryPush c error = c' at heffect hregistered
  cases heffect with
  | quiet c' hview _ => exact h.of_view hview hregistered
  | error c' code type hview _ _ =>
    refine sendProtocolError_writes (h.of_view hview fun hnow => hregistered ?_) code type
    rw [sendProtocolError_eq, sendRawFrame_registered]
    exact hnow

theorem onPoll_writes (h : Writes c) (message : OutboundMessage) : Writes (onPoll c message) := by
  unfold onPoll
  split_ifs
  · exact sendRawFrame_writes h _
  · exact h

theorem onWrite_writes (error : Bool) : Writes (onWrite c error) := by
  unfold onWrite
  dsimp only
  split_ifs with herror hmore hclose
  · exact fun h => by cases h
  · exact fun _ _ => rfl
  · exact fun h => by cases h
  · exact fun _ hqueue => absurd hqueue hmore

end TcpSession

/-- In every state of the exchange, every session that has something to write is writing. -/
theorem Exchange.step_writes {e : Exchange} (h : ∀ r ∈ e.sessions, Writes r.connection)
    (event : ExchangeEvent) : ∀ r ∈ (e.step event).sessions, Writes r.connection := by
  cases event with
  | accept stream =>
    intro r hr
    rcases List.mem_append.mp hr with hr | hr
    · exact h r hr
    · rw [List.mem_singleton.mp hr]
      exact fun _ hqueue => absurd rfl hqueue
  | read session error =>
    simp only [step, read]
    cases hsession : e.sessions[session]? with
    | none => exact h
    | some r =>
      intro r' hr'
      rcases List.mem_or_eq_of_mem_set hr' with hr' | rfl
      · exact h r' hr'
      · exact onRead_writes (h r (List.mem_of_getElem? hsession)) e.hasRoom error
  | write session error =>
    intro r' hr'
    obtain ⟨k, hk⟩ := List.mem_iff_getElem?.mp hr'
    simp only [step, List.getElem?_modify] at hk
    obtain ⟨r, hr, rfl⟩ := Option.map_eq_some_iff.mp hk
    have hbefore := h r (List.mem_of_getElem? hr)
    split_ifs
    · unfold SessionRun.write
      split_ifs
      · exact onWrite_writes error
      · exact hbefore
    · exact hbefore
  | unregister sessionId =>
    intro r' hr'
    obtain ⟨r, hr, rfl⟩ := List.mem_map.mp hr'
    unfold SessionRun.erase
    split_ifs
    · exact fun h => by cases h
    · exact h r hr
  | process => exact e.process_sessions.symm ▸ h
  | push => exact e.push_sessions.symm ▸ h
  | poll =>
    simp only [step, poll]
    split
    · exact h
    · intro r' hr'
      obtain ⟨r, hr, rfl⟩ := List.mem_map.mp hr'
      exact onPoll_writes (h r hr) _

/-! ## The engine at work -/

namespace Exchange

/-- The engine has something to do: `process_one` handles a message, or one waits. -/
def Unanswered (e : Exchange) : Prop :=
  e.call.handling = true ∨ e.engine.service.inbound.items ≠ []

variable {e e' : Exchange}

instance : Decidable e.Unanswered := inferInstanceAs (Decidable (_ ∨ _))

/-- The steps of `process_one` until it pops the next message, beside its pushes. -/
def callLeft (e : Exchange) : Nat := if e.Unanswered then e.call.stepsLeft else 0

theorem unanswered_of_rests (h : Rests e e') (hcall : e'.call.handling = e.call.handling) :
    e'.Unanswered ↔ e.Unanswered := by
  rw [Unanswered, Unanswered, h.inbound, hcall]

theorem callLeft_size (hcall : e.call = .idle) (hcall' : e'.call = .sized) :
    e.callLeft = (if e.Unanswered then 1 else 0) ∧ e'.callLeft = 0 := by
  refine ⟨by rw [callLeft, hcall, EngineCall.stepsLeft], ?_⟩
  rw [callLeft, hcall', EngineCall.stepsLeft, ite_self]

theorem callLeft_answering {message : InboundMessage} {accepted : Bool}
    {pending : List OutboundMessage} (hcall : e.call = .answering message accepted pending) :
    e.callLeft = 2 := by
  rw [callLeft, if_pos (.inl (by rw [hcall]; rfl)), hcall, EngineCall.stepsLeft]

theorem callLeft_idle (hcall : e.call = .idle) : e.callLeft ≤ 1 := by
  rw [callLeft, hcall, EngineCall.stepsLeft]
  split_ifs <;> simp

theorem callLeft_take {message : InboundMessage} (h : Takes e e' message) (hcall : e.call = .sized) :
    e.callLeft = 0 ∧ e'.callLeft = 2 := by
  obtain ⟨accepted, hcall'⟩ := h.call
  exact ⟨by rw [callLeft, hcall, EngineCall.stepsLeft, ite_self], callLeft_answering hcall'⟩

/-- A message that arrives makes a step of the call count. -/
theorem callLeft_of_call (hcall : e'.call = e.call) : e'.callLeft ≤ e.callLeft + 1 := by
  cases hbefore : e.call with
  | idle => exact (callLeft_idle (hcall.trans hbefore)).trans (Nat.le_add_left 1 _)
  | sized =>
    rw [callLeft, hcall, hbefore, EngineCall.stepsLeft, ite_self]
    exact Nat.zero_le _
  | answering message accepted pending =>
    rw [callLeft_answering hbefore, callLeft_answering (hcall.trans hbefore)]
    decide

end Exchange

/-! ## Before the signal -/

namespace GatewayRun

variable {r : GatewayRun}

/-- Up to the signal handler, the threads take steps of the exchange. -/
theorem step_exchange (event : GatewayEvent) (hafter : (r.step event).main.signalled = false)
    (inv : r.exchange.engine.service.book.Inv) : r.main.signalled = false ∧
      ∃ events : List ExchangeEvent, (r.step event).exchange =
        Transducer.run (fun e event => (Exchange.step e event, ())) r.exchange events := by
  have hbefore : r.main.signalled = false := by
    by_contra hsignalled
    rw [Bool.not_eq_false] at hsignalled
    by_cases hengine : event = .engine
    · rw [hengine, step, (engineStep_move inv).main, hsignalled] at hafter
      cases hafter
    · rw [(step_signalled hsignalled hengine).2.2] at hafter
      cases hafter
  have hhandle : ∀ event, ∃ events : List ExchangeEvent, (r.handle event).exchange =
      Transducer.run (fun e event => (Exchange.step e event, ())) r.exchange events := by
    intro event
    unfold handle
    split
    · exact ⟨[event], rfl⟩
    · exact ⟨[], rfl⟩
  refine ⟨hbefore, ?_⟩
  cases event with
  | accept stream => exact hhandle _
  | read session error => exact hhandle _
  | write session error => exact hhandle _
  | drain =>
    simp only [step, drain]
    split
    · exact ⟨[.poll], rfl⟩
    · exact ⟨[.poll], rfl⟩
    · exact ⟨[], rfl⟩
  | signal =>
    simp only [step, signal] at hafter ⊢
    split at hafter
    · cases hafter
    · exact ⟨[], rfl⟩
  | main =>
    simp only [step, mainStep]
    split
    · exact ⟨[], rfl⟩
    · split_ifs <;> exact ⟨[], rfl⟩
    · exact ⟨[], rfl⟩
  | engine =>
    rcases r.engineStep_exchange with hsame | hprocess | hpush
    · exact ⟨[], hsame⟩
    · exact ⟨[.process], hprocess⟩
    · exact ⟨[.push], hpush⟩

section

variable (marketDataFeed : Option (MarketDataFeed × MarketDataQueue))
  (eventCaptureFeed : Option (EventCaptureFeed × EventCaptureQueue))

/-- What holds up to the signal handler. -/
structure Attended (r : GatewayRun) : Prop where
  sound : r.Sound
  serving : r.main.signalled = false
  reached : ∃ events, r.exchange = Exchange.run marketDataFeed eventCaptureFeed events

variable {marketDataFeed eventCaptureFeed}

namespace Attended

theorem step (h : Attended marketDataFeed eventCaptureFeed r) (event : GatewayEvent)
    (hafter : (r.step event).main.signalled = false) :
    Attended marketDataFeed eventCaptureFeed (r.step event) := by
  obtain ⟨events, hevents⟩ := h.reached
  obtain ⟨-, more, hmore⟩ := step_exchange event hafter h.sound.sessions.inv
  refine ⟨h.sound.step event, hafter, events ++ more, ?_⟩
  rw [hmore, hevents, Exchange.run, Exchange.run, Transducer.run_append]

theorem run (events : List GatewayEvent)
    (hserving : (GatewayRun.run marketDataFeed eventCaptureFeed events).main.signalled = false) :
    Attended marketDataFeed eventCaptureFeed
      (GatewayRun.run marketDataFeed eventCaptureFeed events) := by
  induction events using List.reverseRecOn with
  | nil =>
    exact ⟨start_sound marketDataFeed eventCaptureFeed, rfl, [], rfl⟩
  | append_singleton events event ih =>
    rw [GatewayRun.run, Transducer.run_concat] at hserving ⊢
    have hsound := run_sound marketDataFeed eventCaptureFeed events
    exact (ih (step_exchange event hserving hsound.sessions.inv).1).step event hserving

theorem exchangeInv (h : Attended marketDataFeed eventCaptureFeed r)
    (hlength : r.exchange.sessions.length < 2 ^ 64) : ∃ polled, ExchangeInv r.exchange polled := by
  obtain ⟨events, hevents⟩ := h.reached
  rw [hevents] at hlength ⊢
  exact Exchange.run_inv marketDataFeed eventCaptureFeed events hlength

theorem writes (h : Attended marketDataFeed eventCaptureFeed r) :
    ∀ s ∈ r.exchange.sessions, Writes s.connection := by
  obtain ⟨events, hevents⟩ := h.reached
  rw [hevents]
  exact Transducer.run_invariant (fun e : Exchange => ∀ s ∈ e.sessions, Writes s.connection)
    (fun e event h => Exchange.step_writes h event) (by simp [Exchange.start]) events

theorem exited (h : Attended marketDataFeed eventCaptureFeed r) : r.engine ≠ .exited := by
  intro hexited
  have hstop := h.sound.exited hexited
  have hserving := h.serving
  cases hmain : r.main <;> simp [hmain, MainPhase.signalled, MainPhase.stopRequested] at hstop hserving

end Attended

end

/-! ## What is left to do -/

/-- The frames in the write queues. -/
def unwritten (r : GatewayRun) : Nat :=
  (r.exchange.sessions.map fun s => s.connection.writeQueue.length).sum

/-- The messages that the engine thread has to push before it finds the inbound queue empty. -/
def unpushed (r : GatewayRun) : Nat :=
  (answers r.exchange.engine.service.book r.exchange.engine.service.orderSessions
    r.exchange.engine.service.inbound.items).length + r.exchange.pending.length

/-- The steps of the engine thread until it calls `process_available`. -/
def waking (r : GatewayRun) : Nat := if r.exchange.Unanswered then phaseSteps false r.engine else 0

/-- A bound on the turns that count. A message that is popped may be queued for every session, and
keeps the handler of the drain timer busy for one more turn. -/
def workLeft (r : GatewayRun) : Nat :=
  (r.exchange.sessions.length + 3) * r.unpushed +
    (r.exchange.sessions.length + 2) * r.exchange.outbound.size +
    3 * r.exchange.engine.service.inbound.size + r.unwritten +
    (if r.main = .draining then 1 else 0) + (r.waking + r.exchange.callLeft)

/-- Every command is answered, and every answer is written. -/
structure Settled (r : GatewayRun) : Prop where
  answered : ¬ r.exchange.Unanswered
  outbound : r.exchange.outbound.items = []
  main : r.main = .serving
  written : ∀ s ∈ r.exchange.sessions, s.connection.writing = false

/-- The turns that go on when the clients are quiet. -/
inductive QuietEvent where
  | engine
  | drain
  | write (session : Nat)
  deriving DecidableEq

def QuietEvent.event : QuietEvent → GatewayEvent
  | .engine => .engine
  | .drain => .drain
  | .write session => .write session false

/-- The turn that the others wait for. -/
def needed (r : GatewayRun) : QuietEvent :=
  if r.exchange.outbound.items ≠ [] then .drain
  else if r.exchange.Unanswered then .engine
  else if r.main = .draining then .drain
  else .write (r.exchange.sessions.findIdx fun s => s.connection.writing)

/-- A turn lowers what is left to do, or leaves it and the turn that is needed what they are. -/
def Works (r r' : GatewayRun) (event : QuietEvent) : Prop :=
  r'.workLeft < r.workLeft ∨ r'.workLeft = r.workLeft ∧ r'.needed = r.needed ∧ event ≠ r.needed

/-! ### The engine thread -/

theorem engineStep_sessions (r : GatewayRun) :
    r.engineStep.exchange.sessions = r.exchange.sessions := by
  rcases r.engineStep_exchange with hsame | hprocess | hpush
  · rw [hsame]
  · rw [hprocess, Exchange.process_sessions]
  · rw [hpush, Exchange.push_sessions]

/-- The engine thread moves on, with the same messages everywhere. -/
theorem works_of_idle {r' : GatewayRun} (hunanswered : ¬ r.exchange.Unanswered)
    (hunpushed : r'.unpushed = r.unpushed)
    (hanswered : r'.exchange.Unanswered ↔ r.exchange.Unanswered)
    (hinbound : r'.exchange.engine.service.inbound = r.exchange.engine.service.inbound)
    (houtbound : r'.exchange.outbound = r.exchange.outbound)
    (hsessions : r'.exchange.sessions = r.exchange.sessions) (hmain : r'.main = r.main) :
    Works r r' .engine := by
  refine .inr ⟨?_, ?_, ?_⟩
  · simp only [workLeft, waking, Exchange.callLeft, unwritten, hunpushed, hinbound, houtbound,
      hsessions, hmain, hanswered, if_neg hunanswered]
  · simp only [needed, houtbound, hsessions, hmain, hanswered]
  · unfold needed
    split_ifs <;> simp

theorem unpushed_of_rests {exchange : Exchange} (h : r.exchange.Rests exchange)
    {engine : EnginePhase} :
    { r with exchange := exchange, engine := engine }.unpushed = r.unpushed := by
  simp only [unpushed, h.inbound, h.book, h.orderSessions, h.pending]

theorem waking_processing {count : Nat} (h : r.engine = .processing count) : r.waking = 0 := by
  rw [waking, h, phaseSteps, if_neg Bool.false_ne_true, ite_self]

/-- The engine thread wakes up, or calls `process_available`. -/
theorem works_of_phase {engine : EnginePhase}
    (hlt : phaseSteps false engine < phaseSteps false r.engine) :
    Works r { r with engine := engine } .engine := by
  by_cases hsome : r.exchange.Unanswered
  · left
    simp only [workLeft, waking, if_pos hsome, unpushed, unwritten]
    omega
  · exact works_of_idle hsome rfl Iff.rfl rfl rfl rfl rfl

theorem engine_works {r' : GatewayRun} (hmove : EngineMove r r')
    (hsessions : r'.exchange.sessions = r.exchange.sessions)
    (hserving : r.main.signalled = false) (hexited : r.engine ≠ .exited) :
    Works r r' .engine := by
  cases hmove with
  | start hphase hstop => exact works_of_phase (by rw [hphase]; decide)
  | exit hphase hstop =>
    cases hmain : r.main <;> simp [hmain, MainPhase.signalled, MainPhase.stopRequested] at *
  | size count exchange hphase hcall hrests hcall' =>
    have hanswered := Exchange.unanswered_of_rests hrests (by rw [hcall, hcall']; rfl)
    by_cases hsome : r.exchange.Unanswered
    · obtain ⟨hleft, hleft'⟩ := Exchange.callLeft_size hcall hcall'
      rw [if_pos hsome] at hleft
      have hwaking : { r with exchange := exchange }.waking = 0 := waking_processing hphase
      left
      rw [workLeft, workLeft, waking_processing hphase, hwaking]
      simp only [hleft, hleft', unpushed_of_rests hrests, unwritten, hrests.connections,
        hrests.outbound, hrests.inbound]
      omega
    · exact works_of_idle hsome (unpushed_of_rests hrests) hanswered hrests.inbound hrests.outbound
        hsessions rfl
  | take count message exchange hphase hcall htakes =>
    have hpushes : { r with exchange := exchange }.unpushed = r.unpushed := by
      simp only [unpushed, Exchange.pending_of_call hcall, EngineCall.pending, htakes.inbound,
        answers, htakes.pending, htakes.book, htakes.orderSessions, List.length_append,
        List.length_nil]
      omega
    have hlength := congrArg List.length htakes.inbound
    obtain ⟨hleft, hleft'⟩ := Exchange.callLeft_take htakes hcall
    have hwaking : { r with exchange := exchange }.waking = 0 := waking_processing hphase
    left
    rw [workLeft, workLeft, waking_processing hphase, hwaking, hpushes]
    simp only [List.length_cons] at hlength
    simp only [hleft, hleft', unwritten, htakes.connections, htakes.outbound, BoundedFifo.size]
    omega
  | push count message accepted msg pending outbound hphase hcall houtbound =>
    have hleft := Exchange.callLeft_answering hcall
    generalize hafter : Exchange.mk _ _ _ (.answering message accepted pending) outbound = exchange
    have hleft' : exchange.callLeft = 2 := Exchange.callLeft_answering (congrArg Exchange.call hafter.symm)
    have hwaking : { r with exchange := exchange }.waking = 0 := waking_processing hphase
    left
    rw [workLeft, workLeft, waking_processing hphase, hwaking, hleft, hleft', ← hafter]
    simp only [unwritten, unpushed, Exchange.pending, hcall, EngineCall.pending, houtbound,
      BoundedFifo.size, List.length_cons, List.length_append, List.length_nil, Nat.mul_add,
      Nat.add_mul]
    omega
  | wait count hphase hpending hfull =>
    have hfilled : r.exchange.outbound.items ≠ [] := by
      rw [← List.length_pos_iff, ← BoundedFifo.size, hfull]
      decide
    refine .inr ⟨rfl, rfl, ?_⟩
    rw [needed, if_pos hfilled]
    simp
  | finish count message accepted exchange hphase hcall hrests hcall' =>
    have hleft := Exchange.callLeft_answering hcall
    have hleft' := Exchange.callLeft_idle hcall'
    have hwaking : { r with exchange := exchange, engine := .processing (count + 1) }.waking = 0 :=
      waking_processing rfl
    left
    rw [workLeft, workLeft, waking_processing hphase, hwaking, hleft]
    simp only [unpushed_of_rests hrests, unwritten, hrests.connections, hrests.outbound,
      hrests.inbound]
    omega
  | none count exchange engine hphase hcall hempty hrests hcall' hengine =>
    have hnone : ¬ r.exchange.Unanswered := by
      simp [Exchange.Unanswered, hcall, EngineCall.handling, hempty]
    exact works_of_idle hnone (unpushed_of_rests hrests)
      (Exchange.unanswered_of_rests hrests (by rw [hcall, hcall']; rfl)) hrests.inbound
      hrests.outbound hsessions rfl
  | wake hphase => exact works_of_phase (by rw [hphase]; decide)
  | exited hphase => exact absurd hphase hexited

/-! ### The handlers -/

/-- A message is queued at most once for a session. -/
theorem length_poll_le (message : OutboundMessage) (s : SessionRun) :
    (s.poll message).connection.writeQueue.length ≤ s.connection.writeQueue.length + 1 := by
  have hqueue := (onPoll_queues s.connection message).writeQueue
  change (onPoll s.connection message).writeQueue.length ≤ _
  rw [hqueue, List.length_append]
  split_ifs <;> simp

theorem unwritten_poll (r : GatewayRun) (message : OutboundMessage) :
    ((r.exchange.sessions.map (SessionRun.poll message)).map
      fun s => s.connection.writeQueue.length).sum ≤ r.unwritten + r.exchange.sessions.length := by
  rw [unwritten]
  induction r.exchange.sessions with
  | nil => rfl
  | cons s sessions ih =>
    have hone := length_poll_le message s
    simp only [List.map_cons, List.sum_cons, List.length_cons] at ih ⊢
    omega

theorem drain_works (hserving : r.main.signalled = false) : Works r r.drain .drain := by
  have hdrain : r.drain =
      { r with
        exchange := r.exchange.poll
        main := if r.exchange.outbound.tryPop.isSome then .draining else .serving } := by
    cases hmain : r.main <;> simp [hmain, MainPhase.signalled, drain] at hserving ⊢
  rw [hdrain, Exchange.poll]
  cases hpop : r.exchange.outbound.tryPop with
  | none =>
    simp only [Option.isSome_none, Bool.false_eq_true, if_false]
    have hnone := BoundedFifo.items_of_tryPop_none hpop
    by_cases hmain : r.main = .draining
    · left
      have hwaking : { r with main := .serving }.waking = r.waking := rfl
      simp only [workLeft, hwaking, hmain, if_true, reduceCtorEq, if_false]
      exact Nat.add_lt_add_right (Nat.lt_succ_self _) _
    · have hmain' : r.main = .serving := by
        cases h : r.main <;> simp [h, MainPhase.signalled] at hserving hmain ⊢
      have hsame : { r with main := .serving } = r := by rw [← hmain']
      rw [hsame]
      refine .inr ⟨rfl, rfl, ?_⟩
      rw [needed, if_neg (not_not.mpr hnone), if_neg hmain]
      split_ifs <;> simp
  | some popped =>
    obtain ⟨message, outbound⟩ := popped
    have hitems := congrArg List.length (BoundedFifo.items_of_tryPop hpop)
    rw [List.length_cons] at hitems
    have hsum := unwritten_poll r message
    left
    simp only [Option.isSome_some, if_true]
    generalize hafter : GatewayRun.mk _ .draining r.engine = r'
    have hpushes : r'.unpushed = r.unpushed := by rw [← hafter]; rfl
    have hwaking : r'.waking = r.waking := by rw [← hafter]; rfl
    have hcall : r'.exchange.callLeft = r.exchange.callLeft := by rw [← hafter]; rfl
    rw [workLeft, workLeft, hpushes, hwaking, hcall, ← hafter]
    simp only [BoundedFifo.size, hitems, unwritten, List.length_map, if_true, Nat.mul_add] at hsum ⊢
    omega

/-- A write that completes takes its frame off the queue. -/
theorem length_write {s : SessionRun} (hsending : SendingInv s)
    (hwriting : s.connection.writing = true) :
    (s.write false).connection.writeQueue.length < s.connection.writeQueue.length := by
  have hpos := List.length_pos_iff.mpr (hsending.writing hwriting)
  rw [SessionRun.write, if_pos hwriting]
  have hqueue : (onWrite s.connection false).writeQueue = s.connection.writeQueue.tail := by
    unfold onWrite
    dsimp only
    split_ifs <;> simp_all [TcpSession.unregister, doWrite, close]
  rw [hqueue, List.length_tail]
  omega

theorem sum_modify_lt {A : Type*} (f : A → Nat) (g : A → A) {l : List A} {k : Nat} {a : A}
    (ha : l[k]? = some a) (hlt : f (g a) < f a) : ((l.modify k g).map f).sum < (l.map f).sum := by
  induction l generalizing k with
  | nil => simp at ha
  | cons b l ih =>
    cases k with
    | zero =>
      obtain rfl := Option.some.inj ha
      simpa using hlt
    | succ k => simpa using ih ha

/-- Where a write is needed, a session is writing. -/
theorem needed_write (hunsettled : ¬ r.Settled) (hserving : r.main.signalled = false) {k : Nat}
    (h : r.needed = .write k) : r.main = .serving ∧
      ∃ s, r.exchange.sessions[k]? = some s ∧ s.connection.writing = true := by
  unfold needed at h
  split_ifs at h with houtbound hunanswered hdraining
  obtain rfl := QuietEvent.write.inj h
  have hmain : r.main = .serving := by
    cases hmain : r.main <;> simp [hmain, MainPhase.signalled] at hserving hdraining ⊢
  have hwriting : ∃ s ∈ r.exchange.sessions, s.connection.writing = true := by
    by_contra hnone
    exact hunsettled ⟨hunanswered, not_not.mp houtbound, hmain, fun s hs =>
      Bool.eq_false_iff.mpr fun hwriting => hnone ⟨s, hs, hwriting⟩⟩
  have hlt := List.findIdx_lt_length_of_exists hwriting
  have hfound := List.findIdx_getElem (w := hlt)
  exact ⟨hmain, _, List.getElem?_eq_getElem hlt, hfound⟩

theorem write_works (hsending : ∀ s ∈ r.exchange.sessions, SendingInv s) (hunsettled : ¬ r.Settled)
    (hserving : r.main.signalled = false) (k : Nat) :
    Works r (r.handle (.write k false)) (.write k) := by
  by_cases hwrites : r.main = .serving ∧
      ∃ s, r.exchange.sessions[k]? = some s ∧ s.connection.writing = true
  · obtain ⟨hmain, s, hs, hwriting⟩ := hwrites
    have hless := sum_modify_lt (fun s => s.connection.writeQueue.length) (SessionRun.write false)
      hs (length_write (hsending s (List.mem_of_getElem? hs)) hwriting)
    left
    simp only [handle, hmain, Exchange.step]
    generalize hafter : GatewayRun.mk _ _ _ = r'
    have hpushes : r'.unpushed = r.unpushed := by rw [← hafter]; rfl
    have hwaking : r'.waking = r.waking := by rw [← hafter]; rfl
    have hcall : r'.exchange.callLeft = r.exchange.callLeft := by rw [← hafter]; rfl
    rw [workLeft, workLeft, hpushes, hwaking, hcall, ← hafter]
    simp only [unwritten, List.length_modify, hmain]
    omega
  · have hsame : r.handle (.write k false) = r := by
      unfold handle
      split
      · next hmain =>
        have hmodify : r.exchange.sessions.modify k (SessionRun.write false) =
            r.exchange.sessions := by
          apply List.ext_getElem?
          intro j
          rw [List.getElem?_modify]
          cases hj : r.exchange.sessions[j]? with
          | none => rfl
          | some s =>
            simp only [Option.map_eq_map, Option.map_some]
            split_ifs with hk
            · subst hk
              have hwriting : ¬ s.connection.writing = true := fun hwriting =>
                hwrites ⟨hmain, s, hj, hwriting⟩
              rw [SessionRun.write, if_neg hwriting]
            · rfl
        simp only [Exchange.step, hmodify]
      · rfl
    rw [hsame]
    exact .inr ⟨rfl, rfl, fun hneeded => hwrites (needed_write hunsettled hserving hneeded.symm)⟩

theorem settled_step (h : r.Settled) (inv : r.exchange.engine.service.book.Inv)
    (event : QuietEvent) : (r.step event.event).Settled := by
  obtain ⟨hanswered, houtbound, hmain, hwritten⟩ := h
  cases event with
  | engine =>
    have hmove := engineStep_move inv
    have hsessions := engineStep_sessions r
    simp only [QuietEvent.event, step]
    generalize r.engineStep = r' at hmove hsessions
    have hkeep : ∀ s ∈ r'.exchange.sessions, s.connection.writing = false := by
      rwa [hsessions]
    cases hmove with
    | take count message exchange hphase hcall htakes =>
      exact absurd (.inr (by rw [htakes.inbound]; exact List.cons_ne_nil _ _)) hanswered
    | push count message accepted msg pending outbound hphase hcall houtbound =>
      exact absurd (.inl (by rw [hcall]; rfl)) hanswered
    | finish count message accepted exchange hphase hcall hrests hcall' =>
      exact absurd (.inl (by rw [hcall]; rfl)) hanswered
    | size count exchange hphase hcall hrests hcall' =>
      refine ⟨?_, hrests.outbound ▸ houtbound, hmain, hkeep⟩
      exact (Exchange.unanswered_of_rests hrests (by rw [hcall, hcall']; rfl)).not.mpr hanswered
    | none count exchange engine hphase hcall hempty hrests hcall' hengine =>
      refine ⟨?_, hrests.outbound ▸ houtbound, hmain, hkeep⟩
      exact (Exchange.unanswered_of_rests hrests (by rw [hcall, hcall']; rfl)).not.mpr hanswered
    | start | exit | wait | wake | exited => exact ⟨hanswered, houtbound, hmain, hwritten⟩
  | drain =>
    have hpop : r.exchange.outbound.tryPop = none := by
      cases hpop : r.exchange.outbound.tryPop with
      | none => rfl
      | some popped => cases houtbound.symm.trans (BoundedFifo.items_of_tryPop hpop)
    have hsame : r.drain = r := by
      simp only [drain, hmain, Exchange.poll, hpop, Option.isSome_none, Bool.false_eq_true, if_false]
      rw [← hmain]
    rw [QuietEvent.event, step, hsame]
    exact ⟨hanswered, houtbound, hmain, hwritten⟩
  | write k =>
    simp only [QuietEvent.event, step, handle, hmain, Exchange.step]
    refine ⟨hanswered, houtbound, rfl, fun s' hs' => ?_⟩
    obtain ⟨j, hj⟩ := List.mem_iff_getElem?.mp hs'
    rw [List.getElem?_modify] at hj
    obtain ⟨s, hs, rfl⟩ := Option.map_eq_some_iff.mp hj
    have hnot := hwritten s (List.mem_of_getElem? hs)
    split_ifs
    · rw [SessionRun.write, if_neg (by simp [hnot])]
      exact hnot
    · exact hnot

/-! ## Every command is answered -/

section

variable {marketDataFeed : Option (MarketDataFeed × MarketDataQueue)}
  {eventCaptureFeed : Option (EventCaptureFeed × EventCaptureQueue)}

/-- The state before the signal handler, with `connections` sessions. -/
def Quiet (marketDataFeed : Option (MarketDataFeed × MarketDataQueue))
    (eventCaptureFeed : Option (EventCaptureFeed × EventCaptureQueue)) (connections : Nat)
    (r : GatewayRun) : Prop :=
  Attended marketDataFeed eventCaptureFeed r ∧ r.exchange.sessions.length = connections

/-- The threads and handlers that have to get their turns. -/
def quietTurns (connections : Nat) : Set QuietEvent :=
  {event | ∀ k, event = .write k → k < connections}

abbrev quietStep (r : GatewayRun) (event : QuietEvent) : GatewayRun × Unit :=
  (r.step event.event, ())

theorem quiet_length (r : GatewayRun) (event : QuietEvent) :
    (r.step event.event).exchange.sessions.length = r.exchange.sessions.length := by
  cases event with
  | engine => exact congrArg List.length (engineStep_sessions r)
  | drain =>
    have hpoll : r.exchange.poll.sessions.length = r.exchange.sessions.length := by
      unfold Exchange.poll
      split
      · rfl
      · exact List.length_map _
    simp only [QuietEvent.event, step, drain]
    split
    · exact hpoll
    · exact hpoll
    · rfl
  | write k =>
    simp only [QuietEvent.event, step, handle]
    split
    · exact List.length_modify _ _ _
    · rfl

theorem quiet_serving (hserving : r.main.signalled = false)
    (inv : r.exchange.engine.service.book.Inv) (event : QuietEvent) :
    (r.step event.event).main.signalled = false := by
  by_contra hafter
  have hsignal := signal_of_signalled inv hserving (Bool.not_eq_false _ ▸ hafter)
  cases event <;> cases hsignal.1

/-- No command gets lost, and none arrives. -/
theorem quiet_received (r : GatewayRun) (event : QuietEvent) :
    (r.step event.event).exchange.received = r.exchange.received := by
  cases event with
  | engine =>
    rw [QuietEvent.event, step]
    rcases r.engineStep_exchange with hsame | hprocess | hpush
    · rw [hsame]
    · rw [hprocess, Exchange.process_received]
    · rw [hpush, Exchange.push_received]
  | drain =>
    have hpoll : r.exchange.poll.received = r.exchange.received := by
      unfold Exchange.poll
      split <;> rfl
    simp only [QuietEvent.event, step, drain]
    split
    · exact hpoll
    · exact hpoll
    · rfl
  | write k =>
    simp only [QuietEvent.event, step, handle]
    split <;> rfl

theorem Quiet.step {connections : Nat}
    (h : Quiet marketDataFeed eventCaptureFeed connections r) (event : QuietEvent) :
    Quiet marketDataFeed eventCaptureFeed connections (r.step event.event) := by
  obtain ⟨hattended, hlength⟩ := h
  have hafter := quiet_serving hattended.serving hattended.sound.sessions.inv event
  exact ⟨hattended.step event.event hafter, (quiet_length r event).trans hlength⟩

theorem quiet_progress {connections : Nat} (hconnections : connections < 2 ^ 64) :
    Transducer.Progress quietStep id (quietTurns connections)
      (Quiet marketDataFeed eventCaptureFeed connections)
      (fun r => Quiet marketDataFeed eventCaptureFeed connections r ∧ r.Settled)
      workLeft needed where
  mem r h hunsettled k hk := by
    obtain ⟨-, s, hs, -⟩ := needed_write (fun hs => hunsettled ⟨h, hs⟩) h.1.serving hk
    rw [← h.2]
    exact (List.getElem?_eq_some_iff.mp hs).1
  turn r event h hunsettled := by
    refine .inr ⟨h.step event, ?_⟩
    obtain ⟨hattended, hlength⟩ := h
    cases event with
    | engine =>
      exact engine_works (engineStep_move hattended.sound.sessions.inv) (engineStep_sessions r)
        hattended.serving hattended.exited
    | drain => exact drain_works hattended.serving
    | write k =>
      obtain ⟨polled, hinv⟩ := hattended.exchangeInv (hlength ▸ hconnections)
      refine write_works (fun s hs => ?_) (fun hs => hunsettled ⟨⟨hattended, hlength⟩, hs⟩)
        hattended.serving k
      obtain ⟨j, hj⟩ := List.mem_iff_getElem?.mp hs
      exact (hinv.sessions j s hj).sending
  stays r event h := ⟨h.1.step event, settled_step h.2 h.1.1.sound.sessions.inv event⟩

/-- A session with every message to it on its socket. The other frames are its own errors. -/
structure AllSent (processed : List InboundMessage) (s : SessionRun) : Prop where
  written : s.connection.written = s.queued
  frames : (s.connection.written.filter fun f => !f.fatal).map QueuedFrame.bytes =
    ((served processed).flatMap (repliesTo s.connection.sessionId)).map serializeOutbound
  sendable : ∀ msg ∈ (served processed).flatMap (repliesTo s.connection.sessionId), Sendable msg
  errors : ∀ f ∈ s.connection.written, f.fatal = true → IsErrorFrame f

theorem Settled.allSent (h : r.Settled) {polled : List OutboundMessage}
    (hinv : ExchangeInv r.exchange polled) (hlength : r.exchange.sessions.length < 2 ^ 64)
    {s : SessionRun} (hs : s ∈ r.exchange.sessions) (hwrites : Writes s.connection)
    (hregistered : s.connection.registered = true) :
    AllSent r.exchange.engine.processed s := by
  obtain ⟨k, hk⟩ := List.mem_iff_getElem?.mp hs
  have hsound := hinv.sessions k s hk
  have hwritten : s.connection.written = s.queued := by
    have hempty : s.connection.writeQueue = [] := by
      by_contra hqueue
      have hwriting := hwrites hregistered hqueue
      rw [h.written s hs] at hwriting
      cases hwriting
    rw [hsound.sending.queued, TcpSession.queued, hempty, List.append_nil]
  have hpolled : r.exchange.engine.service.outbound = polled := by
    have hpending : r.exchange.pending = [] :=
      EngineCall.pending_of_not_handling (Bool.not_eq_true _ ▸ (not_or.mp h.answered).1)
    rw [hinv.outbound, h.outbound, hpending, List.append_nil, List.append_nil]
  obtain ⟨sent, -, hall, hframes⟩ := hsound.delivered.sent
  have hsent : r.exchange.engine.service.outbound.filter
      (fun msg => msg.sessionId = s.connection.sessionId) =
        (served r.exchange.engine.processed).flatMap (repliesTo s.connection.sessionId) :=
    hinv.groups.outbound (hinv.processed_ne_zero hlength) _
  refine ⟨hwritten, ?_, ?_, hwritten ▸ hsound.delivered.errors⟩
  · rw [hwritten, hframes, hall hregistered, ← hpolled, hsent]
  · rw [← hsent]
    exact fun msg hmsg => hinv.frames.sendable msg (List.mem_of_mem_filter hmsg)

/-- A session that has got all answers: one terminal response for each command that it has
pushed, in the order pushed. -/
def AllAnswered (processed : List InboundMessage) (s : SessionRun) : Prop :=
  let own := (served processed).filter fun x => x.message.sessionId = s.connection.sessionId
  own.map Served.message = s.connection.pushed ∧
  (s.connection.written.map QueuedFrame.bytes).filter isTerminalFrame =
    own.map fun x => serializeOutbound x.terminal

theorem Settled.allAnswered (h : r.Settled) {polled : List OutboundMessage}
    (hinv : ExchangeInv r.exchange polled) {s : SessionRun} (hs : s ∈ r.exchange.sessions)
    (hsent : AllSent r.exchange.engine.processed s) :
    AllAnswered r.exchange.engine.processed s := by
  obtain ⟨k, hk⟩ := List.mem_iff_getElem?.mp hs
  have hsound := hinv.sessions k s hk
  have hreceived : r.exchange.received = r.exchange.engine.processed := by
    rw [Exchange.received, not_not.mp (not_or.mp h.answered).2, List.append_nil]
  constructor
  · rw [← hsound.pushed, hreceived, ← hsound.sessionId]
    conv => rhs; rw [← map_message_served r.exchange.engine.processed, List.filter_map]
    rfl
  · rw [hsent.written, SessionSound.filter_queued hsound.delivered, ← hsent.written, hsent.frames,
      SessionSound.filter_serialized hsent.sendable, filter_served, List.map_map]
    rfl

variable (marketDataFeed eventCaptureFeed)

/-- Rounds of turns settle what is left, if they are more than the work. -/
theorem quiet_settles (events : List GatewayEvent) {rounds : List (List QuietEvent)}
    (hserving : (run marketDataFeed eventCaptureFeed events).main.signalled = false)
    (hconnections :
      (run marketDataFeed eventCaptureFeed events).exchange.sessions.length < 2 ^ 64)
    (hfair : ∀ round ∈ rounds, Transducer.FairRound id
      (quietTurns (run marketDataFeed eventCaptureFeed events).exchange.sessions.length) round)
    (hrounds : (run marketDataFeed eventCaptureFeed events).workLeft < rounds.length) :
    let before := run marketDataFeed eventCaptureFeed events
    let after := run marketDataFeed eventCaptureFeed
      (events ++ rounds.flatten.map QuietEvent.event)
    Quiet marketDataFeed eventCaptureFeed before.exchange.sessions.length after ∧ after.Settled ∧
      after.exchange.received = before.exchange.received := by
  have hattended := @Attended.run marketDataFeed eventCaptureFeed events hserving
  rw [run_append]
  generalize run marketDataFeed eventCaptureFeed events = r at *
  have hquiet : ∀ turns : List QuietEvent, runFrom r (turns.map QuietEvent.event) =
      Transducer.run quietStep r turns := fun turns => List.foldl_map ..
  rw [hquiet]
  obtain ⟨hafter, hsettled⟩ :=
    (quiet_progress hconnections).run_fair ⟨hattended, rfl⟩ hfair hrounds
  exact ⟨hafter, hsettled,
    Transducer.run_invariant (fun s : GatewayRun => s.exchange.received = r.exchange.received)
      (fun s event h => (quiet_received s event).trans h) rfl rounds.flatten⟩

/-- When the clients have become quiet, and the engine thread, the drain timer and the writes go
on, every command that was received gets processed, and each client that is still registered has
got one terminal response for each of its commands, in order. Rounds of turns suffice whose
number is that of the work left. -/
theorem commands_answered (events : List GatewayEvent) {rounds : List (List QuietEvent)}
    (hserving : (run marketDataFeed eventCaptureFeed events).main.signalled = false)
    (hconnections :
      (run marketDataFeed eventCaptureFeed events).exchange.sessions.length < 2 ^ 64)
    (hfair : ∀ round ∈ rounds, Transducer.FairRound id
      (quietTurns (run marketDataFeed eventCaptureFeed events).exchange.sessions.length) round)
    (hrounds : (run marketDataFeed eventCaptureFeed events).workLeft < rounds.length) :
    let after := run marketDataFeed eventCaptureFeed
      (events ++ rounds.flatten.map QuietEvent.event)
    after.exchange.engine.processed =
      (run marketDataFeed eventCaptureFeed events).exchange.received ∧
    ∀ s ∈ after.exchange.sessions, s.connection.registered = true →
      AllAnswered after.exchange.engine.processed s := by
  obtain ⟨⟨hattended, hlength⟩, hsettled, hreceived⟩ :=
    quiet_settles marketDataFeed eventCaptureFeed events hserving hconnections hfair hrounds
  dsimp only
  rw [← hlength] at hconnections
  generalize run marketDataFeed eventCaptureFeed (events ++ _) = after at *
  obtain ⟨polled, hinv⟩ := hattended.exchangeInv hconnections
  refine ⟨?_, fun s hs hregistered => hsettled.allAnswered hinv hs
    (hsettled.allSent hinv hconnections hs (hattended.writes s hs) hregistered)⟩
  have hinbound : after.exchange.engine.service.inbound.items = [] :=
    not_not.mp (not_or.mp hsettled.answered).2
  rw [← hreceived, Exchange.received, hinbound, List.append_nil]

/-- A client has sent an order. -/
def orderSent : List GatewayEvent :=
  [.accept (orderStream
      ⟨SequenceNumber.of 1, OrderId.of 10, .sell, .limit, Quantity.of 5, some (Price.of 100)⟩),
    .read 0 false, .read 0 false]

def quietRounds (rounds : Nat) : List (List QuietEvent) :=
  List.replicate rounds [.write 0, .drain, .engine]

theorem orderSent_answered :
    let after := run none none (orderSent ++ (quietRounds 12).flatten.map QuietEvent.event)
    after.exchange.engine.processed.length = 1 ∧
    ∀ s ∈ after.exchange.sessions, s.connection.registered = true →
      AllAnswered after.exchange.engine.processed s := by
  have hfair : ∀ round ∈ quietRounds 12, Transducer.FairRound id (quietTurns 1) round := by
    intro round hround turn hturn
    rw [List.eq_of_mem_replicate hround]
    refine ⟨turn, ?_, rfl⟩
    cases turn with
    | engine => decide
    | drain => decide
    | write k =>
      have hk : k < 1 := hturn k rfl
      obtain rfl : k = 0 := by omega
      decide
  have hone : (run none none orderSent).exchange.sessions.length = 1 := by decide +kernel
  obtain ⟨hprocessed, hanswered⟩ := commands_answered none none orderSent
    (by decide +kernel) (by decide +kernel) (hone ▸ hfair) (by decide +kernel)
  refine ⟨?_, hanswered⟩
  rw [hprocessed]
  decide +kernel

end

end GatewayRun

end LowLatencyExchange
