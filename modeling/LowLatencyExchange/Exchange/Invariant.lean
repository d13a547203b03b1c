import LowLatencyExchange.Exchange.Basic
import LowLatencyExchange.Exchange.Terminal
import Mathlib.Tactic

/-!
# The invariant of the exchange

What every step of the exchange keeps, whatever order the handlers, the engine and the polls run
in: the ids of the sessions, the messages each has pushed, the frames queued for each, and where
the engine's messages are.
-/
namespace LowLatencyExchange

open Protocol MatchingEngineService TcpSession

/-! ## One session -/

/-- The frames queued for a session are the messages to it that were polled while it was
registered, and its own errors. -/
structure Delivered (polled : List OutboundMessage) (r : SessionRun) : Prop where
  sent : ∃ sent, sent <+: polled.filter (fun msg => msg.sessionId = r.connection.sessionId) ∧
    (r.connection.registered = true →
      sent = polled.filter fun msg => msg.sessionId = r.connection.sessionId) ∧
    (r.queued.filter fun f => !f.fatal).map QueuedFrame.bytes = sent.map serializeOutbound
  errors : ∀ f ∈ r.queued, f.fatal = true → IsErrorFrame f

/-- The session with the `k`-th connection, after `received` was pushed and `polled` was polled. -/
structure SessionSound (polled : List OutboundMessage) (received : List InboundMessage) (k : Nat)
    (r : SessionRun) : Prop where
  sessionId : r.connection.sessionId = UInt64.ofNat (k + 1)
  pushed : received.filter (fun message => message.sessionId = UInt64.ofNat (k + 1)) =
    r.connection.pushed
  sending : SendingInv r
  delivered : Delivered polled r

/-- Frames that are errors of the session itself leave the messages alone. -/
theorem Delivered.react {polled : List OutboundMessage} {r : SessionRun} (h : Delivered polled r)
    {handler : Connection → Connection} {frames : List QueuedFrame}
    (hqueues : Queues r.connection (handler r.connection) frames)
    (hid : (handler r.connection).sessionId = r.connection.sessionId)
    (herrors : ∀ f ∈ frames, IsErrorFrame f) : Delivered polled (r.react handler) := by
  have hqueued := SendingInv.react_queued hqueues
  have hnone : frames.filter (fun f => !f.fatal) = [] := by
    rw [List.filter_eq_nil_iff]
    intro f hf
    obtain ⟨code, type, rfl⟩ := herrors f hf
    simp
  obtain ⟨sent, hsent, hall, hframes⟩ := h.sent
  refine ⟨⟨sent, hid ▸ hsent, fun hregistered => ?_, ?_⟩, ?_⟩
  · exact hid ▸ hall (hqueues.registered hregistered)
  · rw [hqueued, List.filter_append, hnone, List.append_nil, hframes]
  · intro f hf hfatal
    rw [hqueued] at hf
    rcases List.mem_append.mp hf with hf | hf
    · exact h.errors f hf hfatal
    · exact herrors f hf

namespace SessionSound

variable {polled : List OutboundMessage} {received : List InboundMessage} {k : Nat} {r : SessionRun}

/-- Messages of other sessions do not concern this one. -/
theorem receive_other (h : SessionSound polled received k r) {messages : List InboundMessage}
    (hother : ∀ message ∈ messages, message.sessionId ≠ UInt64.ofNat (k + 1)) :
    SessionSound polled (received ++ messages) k r := by
  have hnone : messages.filter (fun message => message.sessionId = UInt64.ofNat (k + 1)) = [] := by
    rw [List.filter_eq_nil_iff]
    intro message hmessage
    simpa using hother message hmessage
  refine { h with pushed := ?_ }
  rw [List.filter_append, hnone, List.append_nil]
  exact h.pushed

theorem read (h : SessionSound polled received k r) (tryPush : Nat → Bool) (error : Bool)
    {messages : List InboundMessage}
    (hpushed : (onRead tryPush r.connection error).pushed = r.connection.pushed ++ messages)
    (hown : ∀ message ∈ messages, message.sessionId = UInt64.ofNat (k + 1)) :
    SessionSound polled (received ++ messages) k (r.read tryPush error) := by
  obtain ⟨frames, hqueues, herrors⟩ := onRead_queues r.connection tryPush error
  have hid := onRead_sessionId tryPush r.connection error
  refine ⟨hid.trans h.sessionId, ?_, h.sending.read tryPush error,
    h.delivered.react hqueues hid herrors⟩
  have hall : messages.filter (fun message => message.sessionId = UInt64.ofNat (k + 1)) =
      messages := by
    rw [List.filter_eq_self]
    intro message hmessage
    simpa using hown message hmessage
  rw [List.filter_append, h.pushed, hall]
  exact hpushed.symm

theorem unregister (h : SessionSound polled received k r) :
    SessionSound polled received k (r.react TcpSession.unregister) :=
  ⟨h.sessionId, h.pushed, h.sending.unregister,
    h.delivered.react (unregister_queues _) rfl (by simp)⟩

theorem write (h : SessionSound polled received k r) (error : Bool) :
    SessionSound polled received k (r.write error) := by
  have hsending := h.sending.write error
  unfold SessionRun.write at hsending ⊢
  split_ifs at hsending ⊢
  · have hview := readerView_onWrite r.connection error
    have hid : (onWrite r.connection error).sessionId = r.connection.sessionId :=
      congrArg ReaderView.sessionId hview
    have hpushed : (onWrite r.connection error).pushed = r.connection.pushed :=
      congrArg ReaderView.pushed hview
    obtain ⟨sent, hsent, hall, hframes⟩ := h.delivered.sent
    refine ⟨hid.trans h.sessionId, h.pushed.trans hpushed.symm, hsending,
      ⟨sent, hid ▸ hsent, fun hregistered => ?_, hframes⟩, h.delivered.errors⟩
    refine hid ▸ hall ?_
    unfold onWrite at hregistered
    dsimp only at hregistered
    split_ifs at hregistered <;> simp_all [TcpSession.unregister, doWrite]
  · exact h

/-- A message is queued for the session that it is addressed to, if that is still registered. -/
theorem poll (h : SessionSound polled received k r) {message : OutboundMessage}
    (hnonzero : message.sessionId ≠ 0) (hsendable : Sendable message) :
    SessionSound (polled ++ [message]) received k (r.poll message) := by
  have hview := readerView_onPoll r.connection message
  have hid : (r.poll message).connection.sessionId = r.connection.sessionId :=
    congrArg ReaderView.sessionId hview
  have hpushed : (r.poll message).connection.pushed = r.connection.pushed :=
    congrArg ReaderView.pushed hview
  have hqueues := onPoll_queues r.connection message
  have hframe := (serializeOutbound_framed hsendable).nonempty
  obtain ⟨sent, hsent, hall, hframes⟩ := h.delivered.sent
  refine ⟨hid.trans h.sessionId, h.pushed.trans hpushed.symm, h.sending.poll message, ?_⟩
  by_cases hto : r.connection.registered = true ∧ message.sessionId = r.connection.sessionId
  · have hopen := h.sending.isOpen hto.1
    rw [if_pos ⟨⟨hto.1, .inr hto.2⟩, hframe, hopen⟩] at hqueues
    have hqueued : (r.poll message).queued = r.queued ++ [⟨serializeOutbound message, false⟩] :=
      SendingInv.react_queued hqueues
    have hpolled : (polled ++ [message]).filter
        (fun msg => msg.sessionId = (r.poll message).connection.sessionId) = sent ++ [message] := by
      rw [hid, List.filter_append, ← hall hto.1]
      simp [hto.2]
    refine ⟨⟨sent ++ [message], hpolled ▸ List.prefix_refl _, fun _ => hpolled.symm, ?_⟩, ?_⟩
    · rw [hqueued, List.filter_append, List.map_append, hframes, List.map_append]
      rfl
    · intro f hf hfatal
      rw [hqueued] at hf
      rcases List.mem_append.mp hf with hf | hf
      · exact h.delivered.errors f hf hfatal
      · rw [List.mem_singleton.mp hf] at hfatal
        cases hfatal
  · rw [if_neg (fun hsend => hto ⟨hsend.1.1, hsend.1.2.resolve_left hnonzero⟩)] at hqueues
    have hdelivered : Delivered polled (r.poll message) :=
      h.delivered.react hqueues hid (by simp)
    obtain ⟨sent, hsent, hall, hframes⟩ := hdelivered.sent
    refine ⟨⟨sent, hsent.trans ?_, fun hregistered => ?_, hframes⟩, hdelivered.errors⟩
    · rw [List.filter_append]
      exact List.prefix_append _ _
    · have hother : message.sessionId ≠ r.connection.sessionId :=
        fun heq => hto ⟨hqueues.registered hregistered, heq⟩
      rw [hall hregistered, List.filter_append]
      simp [hid, hother]

end SessionSound

/-! ## The whole exchange -/

/-- `polled` are the messages that were taken off the outbound queue. -/
structure ExchangeInv (e : Exchange) (polled : List OutboundMessage) : Prop where
  groups : GroupsInv e.engine.service e.engine.processed
  frames : FramesInv e.engine.service
  outbound : e.engine.service.outbound = polled ++ e.outbound.items ++ e.pending
  nextSessionId : e.nextSessionId = UInt64.ofNat (e.sessions.length + 1)
  assigned : ∀ message ∈ e.received, ∃ k < e.sessions.length,
    message.sessionId = UInt64.ofNat (k + 1)
  sessions : ∀ k r, e.sessions[k]? = some r → SessionSound polled e.received k r

/-- Session ids are not 0, and different for different connections. -/
theorem sessionId_inj {j k n : Nat} (hj : j < n) (hk : k < n) (hn : n < 2 ^ 64)
    (h : UInt64.ofNat (j + 1) = UInt64.ofNat (k + 1)) : j = k := by
  have heq := congrArg UInt64.toNat h
  rw [UInt64.toNat_ofNat_of_lt' (by rw [UInt64.size]; omega),
    UInt64.toNat_ofNat_of_lt' (by rw [UInt64.size]; omega)] at heq
  omega

theorem sessionId_ne_zero {k n : Nat} (hk : k < n) (hn : n < 2 ^ 64) :
    UInt64.ofNat (k + 1) ≠ 0 := by
  intro h
  have heq := congrArg UInt64.toNat h
  rw [UInt64.toNat_ofNat_of_lt' (by rw [UInt64.size]; omega)] at heq
  cases heq

/-- A message that finds room in the inbound queue is received. -/
theorem receive_of_room (engine : EngineRun) (message : InboundMessage)
    (hroom : engine.service.inbound.size < 4096) :
    (engine.step (.receive message)).processed = engine.processed ∧
    (engine.step (.receive message)).service.inbound.items =
      engine.service.inbound.items ++ [message] ∧
    (engine.step (.receive message)).service.outbound = engine.service.outbound := by
  rw [EngineRun.step]
  cases hpush : engine.service.inbound.tryPush message with
  | none =>
    have hfull := BoundedFifo.tryPush_eq_none.mp hpush
    omega
  | some inbound => exact ⟨rfl, BoundedFifo.items_of_tryPush hpush, rfl⟩

namespace ExchangeInv

variable {e : Exchange} {polled : List OutboundMessage}

theorem start (marketDataFeed : Option (MarketDataFeed × MarketDataQueue))
    (eventCaptureFeed : Option (EventCaptureFeed × EventCaptureQueue)) :
    ExchangeInv (Exchange.start marketDataFeed eventCaptureFeed) [] where
  groups := groupsInv_rule.start marketDataFeed eventCaptureFeed
  frames := framesInv_rule.start marketDataFeed eventCaptureFeed
  outbound := rfl
  nextSessionId := rfl
  assigned := by simp [Exchange.start, Exchange.received, EngineRun.start, MatchingEngineService.new]
  sessions := by simp [Exchange.start]

variable (h : ExchangeInv e polled) (hlength : e.sessions.length < 2 ^ 64)
include h hlength

theorem processed_ne_zero : ∀ message ∈ e.engine.processed, message.sessionId ≠ 0 := by
  intro message hmessage
  obtain ⟨k, hk, hid⟩ := h.assigned message (List.mem_append_left _ hmessage)
  rw [hid]
  exact sessionId_ne_zero hk hlength

/-- The engine's messages are addressed to sessions. -/
theorem outbound_assigned {msg : OutboundMessage} (hmsg : msg ∈ e.engine.service.outbound) :
    ∃ k < e.sessions.length, msg.sessionId = UInt64.ofNat (k + 1) := by
  obtain ⟨message, hmessage, hid⟩ := h.groups.addressed (h.processed_ne_zero hlength) hmsg
  rw [← hid]
  exact h.assigned message (List.mem_append_left _ hmessage)

theorem accept (hroom : e.sessions.length + 1 < 2 ^ 64) (stream : List UInt8) :
    ExchangeInv (e.accept stream) polled := by
  have hfresh : ∀ k < e.sessions.length,
      UInt64.ofNat (k + 1) ≠ UInt64.ofNat (e.sessions.length + 1) := by
    intro k hk heq
    have := sessionId_inj (Nat.lt_succ_of_lt hk) (Nat.lt_succ_self _) hroom heq
    omega
  have hreceived : (e.accept stream).received = e.received := rfl
  refine { h with nextSessionId := ?_, assigned := ?_, sessions := ?_ }
  · change e.nextSessionId + 1 = UInt64.ofNat ((e.sessions ++ _).length + 1)
    rw [h.nextSessionId, List.length_append, List.length_singleton]
    exact (UInt64.ofNat_add (e.sessions.length + 1) 1).symm
  · intro message hmessage
    obtain ⟨k, hk, hid⟩ := h.assigned message hmessage
    refine ⟨k, ?_, hid⟩
    simp only [Exchange.accept, List.length_append]
    omega
  · intro k r hr
    rw [hreceived]
    simp only [Exchange.accept] at hr
    rw [List.getElem?_append] at hr
    split_ifs at hr with hk
    · exact h.sessions k r hr
    · obtain ⟨hsub, rfl⟩ : k - e.sessions.length = 0 ∧
          r = SessionRun.start e.nextSessionId stream := by
        rw [List.getElem?_singleton] at hr
        split_ifs at hr with hsub
        exact ⟨hsub, (Option.some.inj hr).symm⟩
      obtain rfl : k = e.sessions.length := by omega
      have hnone : polled.filter (fun msg => msg.sessionId = e.nextSessionId) = [] := by
        rw [List.filter_eq_nil_iff]
        intro msg hmsg heq
        have hmem : msg ∈ e.engine.service.outbound := by
          rw [h.outbound, List.append_assoc]
          exact List.mem_append_left _ hmsg
        obtain ⟨k, hk, hid⟩ := h.outbound_assigned hlength hmem
        rw [decide_eq_true_eq, hid, h.nextSessionId] at heq
        exact hfresh k hk heq
      refine ⟨h.nextSessionId, ?_, SendingInv.start _ _, ⟨[], List.nil_prefix, fun _ => hnone.symm,
        rfl⟩, nofun⟩
      change _ = []
      rw [List.filter_eq_nil_iff]
      intro message hmessage heq
      obtain ⟨k, hk, hid⟩ := h.assigned message hmessage
      rw [decide_eq_true_eq, hid] at heq
      exact hfresh k hk heq

theorem read (session : Nat) (error : Bool) : ExchangeInv (e.read session error) polled := by
  unfold Exchange.read
  cases hsession : e.sessions[session]? with
  | none => exact h
  | some r =>
    have hsound := h.sessions session r hsession
    have hlt : session < e.sessions.length := (List.getElem?_eq_some_iff.mp hsession).1
    obtain ⟨messages, hpushed, hcases⟩ := onRead_pushed e.hasRoom r.connection error
    have hdrop : (r.read e.hasRoom error).connection.pushed.drop r.connection.pushed.length =
        messages := by
      change (onRead e.hasRoom r.connection error).pushed.drop _ = messages
      rw [hpushed, List.drop_left]
    have hown : ∀ message ∈ messages, message.sessionId = UInt64.ofNat (session + 1) := by
      rcases hcases with rfl | ⟨message, rfl, hid, -⟩
      · simp
      · intro m hm
        rw [List.mem_singleton.mp hm, hid, hsound.sessionId]
    -- the engine after the push, if there is one
    obtain ⟨engine, hengine, hgroups, hframes, hreceived, houtbound⟩ :
        ∃ engine, messages.foldl (fun engine message => engine.step (.receive message)) e.engine =
            engine ∧ GroupsInv engine.service engine.processed ∧ FramesInv engine.service ∧
          engine.processed ++ engine.service.inbound.items = e.received ++ messages ∧
          engine.service.outbound = e.engine.service.outbound := by
      rcases hcases with rfl | ⟨message, rfl, -, hroom⟩
      · exact ⟨e.engine, rfl, h.groups, h.frames, (List.append_nil _).symm, rfl⟩
      · obtain ⟨hprocessed, hinbound, houtbound⟩ :=
          receive_of_room e.engine message (of_decide_eq_true hroom)
        refine ⟨e.engine.step (.receive message), rfl, groupsInv_rule.rule.step h.groups _,
          framesInv_rule.rule.step h.frames _, ?_, houtbound⟩
        rw [hprocessed, hinbound, Exchange.received, List.append_assoc]
    simp only [hdrop, hengine]
    refine ⟨hgroups, hframes, houtbound.trans h.outbound, ?_, ?_, ?_⟩
    · rw [List.length_set]
      exact h.nextSessionId
    · intro message hmessage
      change message ∈ engine.processed ++ engine.service.inbound.items at hmessage
      rw [hreceived] at hmessage
      rw [List.length_set]
      rcases List.mem_append.mp hmessage with hmessage | hmessage
      · exact h.assigned message hmessage
      · exact ⟨session, hlt, hown message hmessage⟩
    · intro k r' hr'
      change SessionSound polled (engine.processed ++ engine.service.inbound.items) k r'
      rw [hreceived]
      rw [List.getElem?_set] at hr'
      split_ifs at hr' with hk
      · subst hk
        rw [← Option.some.inj hr']
        exact hsound.read e.hasRoom error hpushed hown
      · refine (h.sessions k r' hr').receive_other fun message hmessage heq => hk ?_
        rw [hown message hmessage] at heq
        exact sessionId_inj hlt (List.getElem?_eq_some_iff.mp hr').1 hlength heq

omit hlength in
/-- A step of the sessions alone, each by itself. -/
theorem setSessions {sessions : List SessionRun} (hsame : sessions.length = e.sessions.length)
    (hsound : ∀ k r, sessions[k]? = some r → SessionSound polled e.received k r) :
    ExchangeInv { e with sessions := sessions } polled := by
  refine { h with nextSessionId := ?_, assigned := ?_, sessions := hsound }
  · rw [hsame]
    exact h.nextSessionId
  · rw [hsame]
    exact h.assigned

omit hlength in
theorem write (session : Nat) (error : Bool) :
    ExchangeInv (e.step (.write session error)) polled := by
  apply h.setSessions (List.length_modify _ _ _)
  intro k r hr
  rw [List.getElem?_modify] at hr
  obtain ⟨r₀, hr₀, rfl⟩ := Option.map_eq_some_iff.mp hr
  have hsound := h.sessions k r₀ hr₀
  split_ifs
  · exact hsound.write error
  · exact hsound

omit hlength in
theorem unregister (sessionId : UInt64) : ExchangeInv (e.step (.unregister sessionId)) polled := by
  apply h.setSessions (List.length_map _)
  intro k r hr
  rw [List.getElem?_map] at hr
  obtain ⟨r₀, hr₀, rfl⟩ := Option.map_eq_some_iff.mp hr
  have hsound := h.sessions k r₀ hr₀
  rw [SessionRun.erase]
  split_ifs
  · exact hsound.unregister
  · exact hsound

omit hlength in
/-- A step of `process_one`, which receives nothing and tells no session anything. -/
theorem process : ExchangeInv e.process polled := by
  have hgroups := Exchange.step_rule groupsInv_rule h.groups .process
  have hframes := Exchange.step_rule framesInv_rule h.frames .process
  obtain ⟨houtbound, hnext⟩ :
      e.process.engine.service.outbound = polled ++ e.process.outbound.items ++ e.process.pending ∧
      e.process.nextSessionId = e.nextSessionId := by
    have hbefore := h.outbound
    have hprocess := e.process_step
    generalize e.process = e' at hprocess
    cases hprocess with
    | take message inbound service accepted hcall hinbound hhandled =>
      have hprocessed := handleCommand_processed
        (s := { e.engine.service with inbound := inbound }) h.groups.sessions.inv message
      rw [hhandled] at hprocessed
      rw [Exchange.pending, hcall] at hbefore
      obtain ⟨messages, houtbound⟩ : ∃ messages,
          service.outbound = e.engine.service.outbound ++ messages := ⟨_, hprocessed.outbound⟩
      refine ⟨?_, rfl⟩
      simp only [Exchange.pending, EngineCall.pending, houtbound, List.drop_left]
      rw [hbefore, EngineCall.pending, List.append_nil]
    | size hcall | none hcall | finish message accepted hcall =>
      rw [Exchange.pending, hcall] at hbefore
      exact ⟨hbefore, rfl⟩
    | pushing hpending => exact ⟨hbefore, rfl⟩
  refine ⟨hgroups, hframes, houtbound, ?_, ?_, ?_⟩
  · rw [hnext, Exchange.process_sessions]
    exact h.nextSessionId
  · rw [Exchange.process_received, Exchange.process_sessions]
    exact h.assigned
  · rw [Exchange.process_received, Exchange.process_sessions]
    exact h.sessions

omit hlength in
theorem push : ExchangeInv e.push polled := by
  have houtbound := h.outbound
  have hpush := e.push_step
  generalize e.push = e' at hpush
  cases hpush with
  | push message accepted msg pending outbound hcall hitems =>
    refine { h with outbound := ?_ }
    rw [Exchange.pending, hcall] at houtbound
    simp only [houtbound, hitems, Exchange.pending, EngineCall.pending, List.append_assoc,
      List.singleton_append]
  | full | none => exact h

/-- What is polled next was pushed by the engine. -/
theorem poll : ∃ polled', ExchangeInv e.poll polled' := by
  unfold Exchange.poll
  split
  · exact ⟨polled, h⟩
  · next message outbound hpop =>
    have hitems := BoundedFifo.items_of_tryPop hpop
    have hmessage : message ∈ e.engine.service.outbound := by
      rw [h.outbound, hitems]
      simp
    obtain ⟨k, hk, hid⟩ := h.outbound_assigned hlength hmessage
    have hnonzero : message.sessionId ≠ 0 := hid ▸ sessionId_ne_zero hk hlength
    have hsendable := h.frames.sendable message hmessage
    refine ⟨polled ++ [message], ?_⟩
    refine ⟨h.groups, h.frames, ?_, ?_, ?_, ?_⟩
    · simp only
      rw [h.outbound, hitems, List.append_assoc, List.append_assoc]
      simp only [List.append_assoc, List.cons_append, List.nil_append]
      rfl
    · simp only [List.length_map]
      exact h.nextSessionId
    · simp only [List.length_map]
      exact h.assigned
    · intro k r hr
      rw [List.getElem?_map] at hr
      obtain ⟨r₀, hr₀, rfl⟩ := Option.map_eq_some_iff.mp hr
      exact (h.sessions k r₀ hr₀).poll hnonzero hsendable

end ExchangeInv

/-! ## Runs -/

def ExchangeEvent.isAccept : ExchangeEvent → Bool
  | .accept _ => true
  | _ => false

namespace Exchange

theorem length_step (e : Exchange) (event : ExchangeEvent) :
    (e.step event).sessions.length = e.sessions.length + event.isAccept.toNat := by
  cases event with
  | accept stream => simp [step, accept, ExchangeEvent.isAccept]
  | read session error =>
    simp only [step, read, ExchangeEvent.isAccept]
    split <;> simp
  | write session error => simp [step, ExchangeEvent.isAccept]
  | unregister sessionId => simp [step, ExchangeEvent.isAccept]
  | process => exact congrArg List.length e.process_sessions
  | push => exact congrArg List.length e.push_sessions
  | poll =>
    simp only [step, poll, ExchangeEvent.isAccept]
    split <;> simp

variable (marketDataFeed : Option (MarketDataFeed × MarketDataQueue))
  (eventCaptureFeed : Option (EventCaptureFeed × EventCaptureQueue))

theorem length_run (events : List ExchangeEvent) :
    (run marketDataFeed eventCaptureFeed events).sessions.length =
      events.countP ExchangeEvent.isAccept := by
  induction events using List.reverseRecOn with
  | nil => rfl
  | append_singleton events event ih =>
    rw [run, Transducer.run_concat, List.countP_append, ← ih]
    rw [length_step, List.countP_singleton]
    cases event.isAccept <;> rfl

theorem step_inv {e : Exchange} {polled : List OutboundMessage} (h : ExchangeInv e polled)
    (event : ExchangeEvent) (hlength : (e.step event).sessions.length < 2 ^ 64) :
    ∃ polled', ExchangeInv (e.step event) polled' := by
  have hbefore : e.sessions.length < 2 ^ 64 := by
    rw [length_step] at hlength
    omega
  cases event with
  | accept stream =>
    rw [length_step] at hlength
    exact ⟨polled, h.accept hbefore hlength stream⟩
  | read session error => exact ⟨polled, h.read hbefore session error⟩
  | write session error => exact ⟨polled, h.write session error⟩
  | unregister sessionId => exact ⟨polled, h.unregister sessionId⟩
  | process => exact ⟨polled, h.process⟩
  | push => exact ⟨polled, h.push⟩
  | poll => exact h.poll hbefore

theorem run_inv (events : List ExchangeEvent)
    (hlength : (run marketDataFeed eventCaptureFeed events).sessions.length < 2 ^ 64) :
    ∃ polled, ExchangeInv (run marketDataFeed eventCaptureFeed events) polled := by
  refine Transducer.run_invariant
    (fun e : Exchange => e.sessions.length < 2 ^ 64 → ∃ polled, ExchangeInv e polled) ?_ ?_ events
    hlength
  · intro e event h hafter
    have hle := length_step e event
    obtain ⟨polled, hinv⟩ := h (by dsimp only at hafter; omega)
    exact step_inv hinv event hafter
  · exact fun _ => ⟨[], ExchangeInv.start marketDataFeed eventCaptureFeed⟩

end Exchange

end LowLatencyExchange
