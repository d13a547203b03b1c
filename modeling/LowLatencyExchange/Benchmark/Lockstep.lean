import LowLatencyExchange.Benchmark.Client
import LowLatencyExchange.Benchmark.Outcome
import LowLatencyExchange.Exchange.RunGateway
import Mathlib.Tactic

/-!
# The gateway benchmark

`run_gateway_benchmark`: a client sends a workload to the exchange, each command when the terminal
response to the one before has come. The loop of the client, the network and the threads of the
server take their steps in any order.

No feed is attached, and no other client connects. The latencies are left out.
-/
namespace LowLatencyExchange.Benchmark

open Protocol EventLog MatchingEngineService TcpSession

structure Lockstep where
  exchange : Exchange
  /-- What the client has sent and the server has not got. -/
  inFlight : List UInt8 := []
  /-- The number of bytes that the client has read. -/
  received : Nat := 0
  /-- `result.commands` -/
  commands : Nat := 0
  /-- The client has begun to send the next command, and awaits the response. -/
  waiting : Bool := false
  /-- The client has left the loop on an error. -/
  stopped : Bool := false

inductive LockstepEvent where
  /-- A step of the server. -/
  | server (event : ExchangeEvent)
  /-- Some of the bytes in flight arrive. -/
  | deliver (count : Nat)
  | send
  | receive
  /-- A write of the client fails after some bytes, or a read of it fails. -/
  | fail (count : Nat)
  deriving DecidableEq

/-- The bytes that the outstanding read asks for are there. -/
def readable (r : SessionRun) : Bool :=
  r.connection.reading.any fun reading =>
    decide (Reading.requested reading ≤ r.connection.unread.length)

namespace Lockstep

/-- A read completes with the bytes that it asks for, or with an error. The end of the stream is
one, and comes when the client has closed its socket. -/
def server (s : Lockstep) (event : ExchangeEvent) : Lockstep :=
  match event with
  | .accept _ => s
  | .read session error =>
    if error || s.stopped || s.exchange.sessions[session]?.any readable then
      { s with exchange := s.exchange.step (.read session error) }
    else s
  | event => { s with exchange := s.exchange.step event }

def deliver (s : Lockstep) (count : Nat) : Lockstep :=
  { s with
    inFlight := s.inFlight.drop count
    exchange := { s.exchange with
      sessions := s.exchange.sessions.map fun r => { r with
        connection := { r.connection with
          unread := r.connection.unread ++ s.inFlight.take count } } } }

/-- The bytes on the client's socket. Those of a frame that is being written may have come. -/
def replies (s : Lockstep) : List UInt8 :=
  s.exchange.sessions.flatMap fun r =>
    (r.connection.written ++
      if r.connection.writing then r.connection.writeQueue.head?.toList else []).flatMap
        QueuedFrame.bytes

def receive (s : Lockstep) : Lockstep :=
  if s.waiting && !s.stopped then
    match readFrame (s.replies.drop s.received) with
    | none => s
    | some (header, rest) =>
      let s := { s with received := s.replies.length - rest.length }
      if isTerminal header.type then { s with waiting := false, commands := s.commands + 1 } else s
  else s

section Client

variable (workload : List WorkloadCommand)

/-- The frame of the next command, and `none` at the end of the workload. -/
def next (s : Lockstep) : Option (Option (List UInt8)) :=
  workload[s.commands]?.map fun item => encodeCommand item.command

def send (s : Lockstep) : Lockstep :=
  if s.waiting || s.stopped then s
  else
    match s.next workload with
    | none => s
    | some none => { s with stopped := true }
    | some (some frame) => { s with waiting := true, inFlight := s.inFlight ++ frame }

def fail (s : Lockstep) (count : Nat) : Lockstep :=
  if s.stopped then s
  else if s.waiting then { s with stopped := true }
  else
    match s.next workload with
    | some (some frame) =>
      { s with waiting := true, stopped := true, inFlight := s.inFlight ++ frame.take count }
    | _ => s

def step (s : Lockstep) : LockstepEvent → Lockstep
  | .server event => s.server event
  | .deliver count => s.deliver count
  | .send => s.send workload
  | .receive => s.receive
  | .fail count => s.fail workload count

/-- The client has connected. -/
def start : Lockstep where
  exchange := (Exchange.start none none).accept []

def run (events : List LockstepEvent) : Lockstep :=
  Transducer.run (fun s event => (step workload s event, ())) start events

end Client

/-- The result, once the threads have ended. -/
def result (s : Lockstep) : BenchmarkResult :=
  let metrics := s.exchange.engine.service.metrics
  { commands := UInt64.ofNat s.commands
    acceptedCommands := metrics.acceptedCommands
    rejectedCommands := metrics.rejectedCommands
    acceptedCancels := metrics.acceptedCancels
    rejectedCancels := metrics.rejectedCancels
    executions := metrics.executions
    inboundBytes := metrics.inboundBytes
    outboundBytes := metrics.outboundBytes
    inboundQueueHighWater := UInt64.ofNat metrics.inboundQueueHighWater }

/-- The number of commands that the client has begun to send. -/
def sent (s : Lockstep) : Nat := s.commands + s.waiting.toNat

end Lockstep

/-! ## The server's steps -/

/-- A step of the server leaves the session's reading alone, or is one of its reads. -/
structure SessionStep (tryPush : Nat → Bool) (r r' : SessionRun) : Prop where
  queued : r.queued <+: r'.queued
  view : readerView r'.connection = readerView r.connection ∨
    ∃ error, ReadStep tryPush error (readerView r.connection) (readerView r'.connection)

theorem SessionStep.refl (tryPush : Nat → Bool) (r : SessionRun) : SessionStep tryPush r r :=
  ⟨List.prefix_refl _, .inl rfl⟩

theorem step_session {e : Exchange} {r : SessionRun} (hone : e.sessions = [r])
    {event : ExchangeEvent} (haccept : event.isAccept = false) :
    ∃ r', (e.step event).sessions = [r'] ∧ SessionStep e.hasRoom r r' := by
  have hsame : SessionStep e.hasRoom r r := .refl _ _
  cases event with
  | accept stream => cases haccept
  | read session error =>
    cases session with
    | zero =>
      simp only [Exchange.step, Exchange.read, hone, List.getElem?_cons_zero, List.set_cons_zero]
      exact ⟨_, rfl, List.prefix_append _ _, .inr ⟨error, onRead_readStep _ _ _⟩⟩
    | succ session =>
      simp only [Exchange.step, Exchange.read, hone, List.getElem?_cons_succ, List.getElem?_nil]
      exact ⟨r, rfl, hsame⟩
  | write session error =>
    cases session with
    | zero =>
      simp only [Exchange.step, hone, List.modify_zero_cons]
      refine ⟨_, rfl, ?_⟩
      unfold SessionRun.write
      split_ifs
      · exact ⟨List.prefix_refl _, .inl (readerView_onWrite _ _)⟩
      · exact hsame
    | succ session =>
      simp only [Exchange.step, hone, List.modify_succ_cons, List.modify_nil]
      exact ⟨r, rfl, hsame⟩
  | unregister sessionId =>
    simp only [Exchange.step, hone, List.map_cons, List.map_nil]
    refine ⟨_, rfl, ?_⟩
    unfold SessionRun.erase
    split_ifs
    · exact ⟨List.prefix_append _ _, .inl rfl⟩
    · exact hsame
  | process => exact ⟨r, e.process_sessions.trans hone, hsame⟩
  | push => exact ⟨r, e.push_sessions.trans hone, hsame⟩
  | poll =>
    simp only [Exchange.step, Exchange.poll]
    split
    · exact ⟨r, hone, hsame⟩
    · simp only [hone, List.map_cons, List.map_nil]
      exact ⟨_, rfl, List.prefix_append _ _, .inl (readerView_onPoll _ _)⟩

/-- No call of `process_one` has seen more than one message in the inbound queue. -/
def Shallow (e : Exchange) : Prop := e.engine.service.metrics.inboundQueueHighWater ≤ 1

theorem shallow_step {e : Exchange} (h : Shallow e) (inv : e.engine.service.book.Inv)
    (hsize : e.engine.service.inbound.size ≤ 1) (event : ExchangeEvent) :
    Shallow (e.step event) := by
  cases event with
  | read session error =>
    simp only [Exchange.step, Exchange.read]
    split
    · exact h
    · obtain ⟨inbound, hengine⟩ := Exchange.receive_waits _ e.engine
      rw [hengine]
      exact h
  | process =>
    have hprocess := e.process_step
    simp only [Exchange.step]
    generalize e.process = e' at hprocess
    cases hprocess with
    | size hcall => exact max_le h hsize
    | take message inbound service accepted hcall hinbound hhandled =>
      have hmark := handleCommand_highWater (s := { e.engine.service with inbound := inbound }) inv
        message.sessionId message.command
      rw [hhandled] at hmark
      exact hmark.trans_le h
    | finish message accepted hcall => exact (finishMessage_highWater _ _ _).trans_le h
    | none | pushing => exact h
  | push =>
    have hpush := e.push_step
    simp only [Exchange.step]
    generalize e.push = e' at hpush
    cases hpush <;> exact h
  | poll =>
    simp only [Exchange.step, Exchange.poll]
    split <;> exact h
  | accept stream => exact h
  | write session error => exact h
  | unregister sessionId => exact h

/-! ## The invariant -/

/-- The session `r` has pushed the commands `taken`, and the client has read `frames` of those
queued for it. Of the command that the client was sending when a write failed, `lost` was not
sent. -/
structure LockstepInv (commands : List Command) (s : Lockstep) (polled : List OutboundMessage)
    (r : SessionRun) (taken left : List Command) (lost : List UInt8) (frames : List QueuedFrame) :
    Prop where
  exchange : ExchangeInv s.exchange polled
  sessions : s.exchange.sessions = [r]
  split : taken ++ left = commands
  aligned : Aligned taken left
    (s.inFlight ++ (lost ++ (commands.drop s.sent).flatMap commandFrame)) (readerView r.connection)
  lost : s.stopped = false → lost = []
  sent : s.sent ≤ commands.length
  queued : frames <+: r.queued
  received : s.received = (frames.flatMap QueuedFrame.bytes).length
  answered : s.commands = (frames.map QueuedFrame.bytes).countP isTerminalFrame
  metrics : Exchange.CallInv MetricsInv s.exchange
  shallow : Shallow s.exchange

namespace LockstepInv

variable {commands taken left : List Command} {s : Lockstep} {polled : List OutboundMessage}
  {r : SessionRun} {lost : List UInt8} {frames : List QueuedFrame}

theorem sound (h : LockstepInv commands s polled r taken left lost frames) :
    SessionSound polled s.exchange.received 0 r :=
  h.exchange.sessions 0 r (by rw [h.sessions]; rfl)

theorem length_lt (h : LockstepInv commands s polled r taken left lost frames) :
    s.exchange.sessions.length < 2 ^ 64 := by
  rw [h.sessions]
  exact (by decide : 1 < 2 ^ 64)

/-- The only session has sent all that was received. -/
theorem received_eq (h : LockstepInv commands s polled r taken left lost frames) :
    s.exchange.received =
      taken.map fun c => messageOf r.connection.sessionId (commandType c).value c := by
  have hall : s.exchange.received.filter (fun message => message.sessionId = UInt64.ofNat (0 + 1)) =
      s.exchange.received := by
    rw [List.filter_eq_self]
    intro message hmessage
    obtain ⟨k, hk, hid⟩ := h.exchange.assigned message hmessage
    rw [h.sessions, List.length_singleton] at hk
    obtain rfl : k = 0 := by omega
    exact decide_eq_true hid
  rw [← hall, h.sound.pushed]
  exact h.aligned.pushed

theorem received_commands (h : LockstepInv commands s polled r taken left lost frames) :
    s.exchange.received.map InboundMessage.command = taken := by
  rw [h.received_eq, List.map_map]
  exact List.map_id' taken

/-- The client has got at most as many responses as commands were processed, and it sends no
command before the response to the last one. -/
theorem counts (h : LockstepInv commands s polled r taken left lost frames) :
    s.commands ≤ s.exchange.engine.processed.length ∧
      s.exchange.engine.processed.length + s.exchange.engine.service.inbound.size ≤ s.sent := by
  obtain ⟨own, hown, -, hterminal, -⟩ :=
    (h.sound.served h.exchange h.length_lt).terminal frames h.queued
  have hanswered : s.commands = own.length := by
    rw [h.answered, List.countP_eq_length_filter, hterminal, List.length_map]
  have hprocessed := congrArg List.length (map_message_served s.exchange.engine.processed)
  rw [List.length_map] at hprocessed
  have hreceived := congrArg List.length h.received_commands
  rw [List.length_map, Exchange.received, List.length_append] at hreceived
  have haligned := h.aligned
  rw [← List.append_assoc, ← h.split] at haligned
  have htaken := haligned.length_le
  have hle := hown.length_le.trans (List.length_filter_le _ _)
  rw [BoundedFifo.size]
  omega

theorem size_le (h : LockstepInv commands s polled r taken left lost frames) :
    s.exchange.engine.service.inbound.size ≤ 1 := by
  have hcounts := h.counts
  have hwaiting := Bool.toNat_le s.waiting
  rw [Lockstep.sent] at hcounts
  omega

/-- What was processed are the first commands of the workload. -/
theorem processed_commands (h : LockstepInv commands s polled r taken left lost frames) :
    s.exchange.engine.processed.map InboundMessage.command =
      commands.take s.exchange.engine.processed.length := by
  have hreceived := h.received_commands
  rw [Exchange.received, List.map_append] at hreceived
  rw [← h.split, ← hreceived, List.append_assoc, List.take_left' (List.length_map ..)]

/-- The frames queued for the session are frames of messages. -/
theorem framed (h : LockstepInv commands s polled r taken left lost frames) :
    ∀ f ∈ r.queued, ∃ msg, Framed msg f.bytes := by
  intro f hf
  obtain ⟨sent, hsent, -, hframes⟩ := h.sound.delivered.sent
  cases hfatal : f.fatal with
  | true =>
    obtain ⟨code, type, rfl⟩ := h.sound.delivered.errors f hf hfatal
    exact ⟨_, makeErrorFrame_framed code type⟩
  | false =>
    have hmem : f.bytes ∈ sent.map serializeOutbound := by
      rw [← hframes]
      exact List.mem_map_of_mem (List.mem_filter.mpr ⟨hf, by simp [hfatal]⟩)
    obtain ⟨msg, hmsg, hbytes⟩ := List.mem_map.mp hmem
    refine ⟨msg, hbytes ▸ serializeOutbound_framed (h.exchange.frames.sendable msg ?_)⟩
    rw [h.exchange.outbound, List.append_assoc]
    exact List.mem_append_left _ (List.mem_of_mem_filter (hsent.subset hmsg))

theorem exchangeStep (h : LockstepInv commands s polled r taken left lost frames)
    {event : ExchangeEvent} (haccept : event.isAccept = false) :
    ∃ polled r taken left, LockstepInv commands { s with exchange := s.exchange.step event } polled r
      taken left lost frames := by
  obtain ⟨r', hone, hqueued, hview⟩ := step_session h.sessions haccept
  obtain ⟨polled', hexchange⟩ := Exchange.step_inv h.exchange event (by
    rw [hone]
    exact (by decide : 1 < 2 ^ 64))
  have hmetrics := h.metrics.step metricsInv_finishRule event
  have hshallow := shallow_step h.shallow h.metrics.holds.inv h.size_le event
  have hroom : ∀ n, s.exchange.hasRoom n = true := by
    intro n
    have hsize := h.size_le
    exact decide_eq_true (by omega)
  rcases hview with hview | ⟨error, hstep⟩
  · exact ⟨polled', r', taken, left, hexchange, hone, h.split, hview ▸ h.aligned, h.lost, h.sent,
      h.queued.trans hqueued, h.received, h.answered, hmetrics, hshallow⟩
  · obtain ⟨taken', left', hsplit, haligned⟩ := h.aligned.read hroom hstep
    exact ⟨polled', r', taken', left', hexchange, hone, hsplit.trans h.split, haligned, h.lost, h.sent,
      h.queued.trans hqueued, h.received, h.answered, hmetrics, hshallow⟩

theorem server (h : LockstepInv commands s polled r taken left lost frames) (event : ExchangeEvent) :
    ∃ polled r taken left, LockstepInv commands (s.server event) polled r taken left lost frames := by
  have hsame : ∃ polled r taken left, LockstepInv commands s polled r taken left lost frames :=
    ⟨polled, r, taken, left, h⟩
  unfold Lockstep.server
  split
  · exact hsame
  · split_ifs
    · exact h.exchangeStep rfl
    · exact hsame
  · next haccept hread =>
    refine h.exchangeStep ?_
    cases event with
    | accept stream => exact absurd rfl (haccept stream)
    | _ => rfl

theorem deliver (h : LockstepInv commands s polled r taken left lost frames) (count : Nat) :
    ∃ r, LockstepInv commands (s.deliver count) polled r taken left lost frames := by
  have haligned := h.aligned
  rw [← List.take_append_drop count s.inFlight, List.append_assoc] at haligned
  have hsessions : (s.deliver count).exchange.sessions = [{ r with
      connection := { r.connection with
        unread := r.connection.unread ++ s.inFlight.take count } }] := by
    simp only [Lockstep.deliver, h.sessions, List.map_cons, List.map_nil]
  refine ⟨_, h.exchange.setSessions (List.length_map _) (fun k r' hr' => ?_), hsessions, h.split,
    haligned.deliver, h.lost, h.sent, h.queued, h.received, h.answered,
    h.metrics.beside rfl rfl h.metrics.holds, h.shallow⟩
  rw [List.getElem?_map] at hr'
  obtain ⟨r₀, hr₀, rfl⟩ := Option.map_eq_some_iff.mp hr'
  have hsound := h.exchange.sessions k r₀ hr₀
  obtain ⟨hqueued, houtstanding, hwriting, hopen⟩ := hsound.sending
  exact ⟨hsound.sessionId, hsound.pushed, ⟨hqueued, houtstanding, hwriting, hopen⟩,
    ⟨hsound.delivered.sent, hsound.delivered.errors⟩⟩

/-! ### The client -/

/-- The client writes the next command, or a part of it and fails. -/
theorem write (h : LockstepInv commands s polled r taken left lost frames) {command : Command}
    (hnext : commands[s.commands]? = some command) (hwaiting : s.waiting = false)
    (hrunning : s.stopped = false) {front back : List UInt8} {failed : Bool}
    (hframe : commandFrame command = front ++ back) (hfailed : failed = false → back = []) :
    LockstepInv commands
      { s with waiting := true, stopped := failed, inFlight := s.inFlight ++ front }
      polled r taken left back frames := by
  have haligned := h.aligned
  obtain ⟨hlt, hcommand⟩ := List.getElem?_eq_some_iff.mp hnext
  rw [h.lost hrunning, List.nil_append, Lockstep.sent, hwaiting, Bool.toNat_false, Nat.add_zero,
    List.drop_eq_getElem_cons hlt, hcommand, List.flatMap_cons, hframe, List.append_assoc] at haligned
  refine { h with aligned := ?_, lost := hfailed, sent := hlt }
  rw [List.append_assoc]
  exact haligned

theorem send {workload : List WorkloadCommand}
    (h : LockstepInv (workload.map WorkloadCommand.command) s polled r taken left lost frames) :
    ∃ lost, LockstepInv (workload.map WorkloadCommand.command) (s.send workload) polled r taken left
      lost frames := by
  unfold Lockstep.send Lockstep.next
  split_ifs with hbusy
  · exact ⟨lost, h⟩
  · obtain ⟨hwaiting, hrunning⟩ : s.waiting = false ∧ s.stopped = false := by simpa using hbusy
    cases hitem : workload[s.commands]? with
    | none => exact ⟨lost, h⟩
    | some item =>
      simp only [Option.map_some, encodeCommand_eq]
      have hnext : (workload.map WorkloadCommand.command)[s.commands]? = some item.command := by
        rw [List.getElem?_map, hitem, Option.map_some]
      have hsent := h.write hnext hwaiting hrunning (List.append_nil _).symm
        (fun _ : false = false => rfl)
      exact ⟨[], hrunning ▸ hsent⟩

theorem fail {workload : List WorkloadCommand}
    (h : LockstepInv (workload.map WorkloadCommand.command) s polled r taken left lost frames)
    (count : Nat) :
    ∃ lost, LockstepInv (workload.map WorkloadCommand.command) (s.fail workload count) polled r taken
      left lost frames := by
  unfold Lockstep.fail Lockstep.next
  split_ifs with hstopped hwaiting
  · exact ⟨lost, h⟩
  · exact ⟨lost, { h with lost := fun hrunning => by cases hrunning }⟩
  · cases hitem : workload[s.commands]? with
    | none => exact ⟨lost, h⟩
    | some item =>
      simp only [Option.map_some, encodeCommand_eq]
      have hnext : (workload.map WorkloadCommand.command)[s.commands]? = some item.command := by
        rw [List.getElem?_map, hitem, Option.map_some]
      exact ⟨_, h.write hnext (by simpa using hwaiting) (by simpa using hstopped)
        (List.take_append_drop count _).symm (fun hrunning => by cases hrunning)⟩

/-- The bytes on the client's socket are the frames that the client has read, and others. -/
theorem replies_drop (h : LockstepInv commands s polled r taken left lost frames) :
    ∃ more, frames ++ more <+: r.queued ∧
      s.replies.drop s.received = more.flatMap QueuedFrame.bytes ∧
      (more ≠ [] → s.replies.length = s.received + (more.flatMap QueuedFrame.bytes).length) := by
  obtain ⟨socket, hreplies, hsocket⟩ : ∃ socket, s.replies = socket.flatMap QueuedFrame.bytes ∧
      socket <+: r.queued := by
    refine ⟨_, by rw [Lockstep.replies, h.sessions, List.flatMap_singleton], ?_⟩
    rw [h.sound.sending.queued, TcpSession.queued, List.prefix_append_right_inj]
    cases r.connection.writeQueue with
    | nil => simp
    | cons f rest => split_ifs <;> simp
  rcases List.prefix_or_prefix_of_prefix h.queued hsocket with ⟨more, rfl⟩ | ⟨ahead, rfl⟩
  · refine ⟨more, hsocket, ?_, fun _ => ?_⟩
    · rw [hreplies, h.received, List.flatMap_append, List.drop_left]
    · rw [hreplies, h.received, List.flatMap_append, List.length_append]
  · refine ⟨[], by simpa using h.queued, ?_, fun hne => absurd rfl hne⟩
    rw [hreplies, h.received, List.flatMap_append, List.length_append, List.flatMap_nil]
    exact List.drop_eq_nil_of_le (Nat.le_add_right _ _)

theorem receive (h : LockstepInv commands s polled r taken left lost frames) :
    ∃ frames, LockstepInv commands s.receive polled r taken left lost frames := by
  obtain ⟨more, hmore, hdrop, hlength⟩ := h.replies_drop
  unfold Lockstep.receive
  split_ifs with hbusy
  · obtain ⟨hwaiting, -⟩ : s.waiting = true ∧ s.stopped = false := by simpa using hbusy
    rw [hdrop]
    cases more with
    | nil => exact ⟨frames, h⟩
    | cons f more =>
      obtain ⟨msg, hframed⟩ := h.framed f (hmore.subset (by simp))
      obtain ⟨header, hread, -, hterminal⟩ := readFrame_framed hframed (more.flatMap QueuedFrame.bytes)
      have hreceived : s.replies.length - (more.flatMap QueuedFrame.bytes).length =
          ((frames ++ [f]).flatMap QueuedFrame.bytes).length := by
        have hsize := hlength (List.cons_ne_nil _ _)
        rw [h.received] at hsize
        simp only [List.flatMap_cons, List.flatMap_append, List.flatMap_nil, List.append_nil,
          List.length_append] at hsize ⊢
        omega
      have hqueued : frames ++ [f] <+: r.queued :=
        (List.prefix_append (frames ++ [f]) more).trans (by simpa using hmore)
      simp only [List.flatMap_cons, hread, hterminal]
      have hanswered : ((frames ++ [f]).map QueuedFrame.bytes).countP isTerminalFrame =
          s.commands + if isTerminalFrame f.bytes then 1 else 0 := by
        rw [h.answered, List.map_append, List.countP_append, List.map_singleton,
          List.countP_singleton]
      refine ⟨frames ++ [f], ?_⟩
      split_ifs at hanswered ⊢ with hlast
      · have hsent : s.sent = s.commands + 1 := by rw [Lockstep.sent, hwaiting, Bool.toNat_true]
        have haligned := h.aligned
        rw [hsent] at haligned
        exact { h with
          aligned := haligned
          sent := hsent ▸ h.sent
          queued := hqueued
          received := hreceived
          answered := hanswered.symm }
      · exact { h with
          queued := hqueued
          received := hreceived
          answered := hanswered.symm }
  · exact ⟨frames, h⟩

end LockstepInv

/-! ## Runs -/

/-- A workload that a session takes: valid orders, with increasing sequence numbers. -/
structure Ordered (workload : List WorkloadCommand) : Prop where
  loggable : ∀ item ∈ workload, Loggable item.command
  increasing : workload.Pairwise fun a b => a.command.sequence.value < b.command.sequence.value

theorem AllFit.ordered {config : WorkloadConfig} {workload : List WorkloadCommand}
    (h : AllFit config workload) : Ordered workload where
  loggable := by
    intro item hmem
    obtain ⟨before, after, rfl⟩ := List.append_of_mem hmem
    obtain ⟨-, hfits⟩ := h before item after rfl
    cases hcommand : item.command with
    | submit order =>
      rw [hcommand] at hfits
      exact hfits.2.2.1
    | cancel cancel => trivial
    | replace command => trivial
  increasing := by
    induction workload using List.reverseRecOn with
    | nil => exact List.Pairwise.nil
    | append_singleton workload item ih =>
      obtain ⟨hfit, hsequence, -⟩ := h.of_concat
      refine List.pairwise_append.mpr ⟨ih hfit, List.pairwise_singleton _ _, fun earlier hmem last hlast => ?_⟩
      obtain ⟨before, after, rfl⟩ := List.append_of_mem hmem
      obtain ⟨hearlier, -⟩ := hfit before earlier after rfl
      rw [List.mem_singleton.mp hlast, hsequence, hearlier, List.length_append, List.length_cons]
      omega

theorem ordered_of_makeWorkload {config : WorkloadConfig} {random : Nat → UInt64}
    {maxSize : UInt64} {workload : List WorkloadCommand}
    (hworkload : makeWorkload config random maxSize = some workload)
    (hlevels : config.bookLevels ≤ 100000) : Ordered workload := by
  by_cases hadmitted : config.admitted
  · exact (wellFormed_of_makeWorkload hadmitted hlevels hworkload).fits.ordered
  · rw [makeWorkload, if_neg hadmitted] at hworkload
    obtain rfl := Option.some.inj hworkload
    exact ⟨fun item hmem => absurd hmem List.not_mem_nil, List.Pairwise.nil⟩

namespace Lockstep

variable {workload : List WorkloadCommand}

theorem start_inv (h : Ordered workload) :
    LockstepInv (workload.map WorkloadCommand.command) start [] (SessionRun.start 1 []) []
      (workload.map WorkloadCommand.command) [] [] where
  exchange := (ExchangeInv.start none none).accept (by decide) (by decide) []
  sessions := rfl
  split := rfl
  aligned :=
    { pushed := rfl
      increasing := List.pairwise_map.mpr h.increasing
      last := fun c _ => c.sequence.pos
      loggable := List.forall_mem_map.mpr h.loggable
      errors := rfl
      reads := .header rfl rfl }
  lost _ := rfl
  sent := Nat.zero_le _
  queued := List.prefix_refl _
  received := rfl
  answered := rfl
  metrics := ⟨metricsInv_rule.start none none, fun hanswering => by cases hanswering⟩
  shallow := Nat.zero_le 1

theorem step_inv {s : Lockstep} {polled : List OutboundMessage} {r : SessionRun}
    {taken left : List Command} {lost : List UInt8} {frames : List QueuedFrame}
    (h : LockstepInv (workload.map WorkloadCommand.command) s polled r taken left lost frames)
    (event : LockstepEvent) :
    ∃ polled r taken left lost frames, LockstepInv (workload.map WorkloadCommand.command)
      (s.step workload event) polled r taken left lost frames := by
  cases event with
  | server event =>
    obtain ⟨polled, r, taken, left, h⟩ := h.server event
    exact ⟨polled, r, taken, left, lost, frames, h⟩
  | deliver count =>
    obtain ⟨r, h⟩ := h.deliver count
    exact ⟨polled, r, taken, left, lost, frames, h⟩
  | send =>
    obtain ⟨lost, h⟩ := h.send
    exact ⟨polled, r, taken, left, lost, frames, h⟩
  | receive =>
    obtain ⟨frames, h⟩ := h.receive
    exact ⟨polled, r, taken, left, lost, frames, h⟩
  | fail count =>
    obtain ⟨lost, h⟩ := h.fail count
    exact ⟨polled, r, taken, left, lost, frames, h⟩

theorem run_inv (h : Ordered workload) (events : List LockstepEvent) :
    ∃ polled r taken left lost frames, LockstepInv (workload.map WorkloadCommand.command)
      (run workload events) polled r taken left lost frames :=
  Transducer.run_invariant
    (fun s : Lockstep => ∃ polled r taken left lost frames,
      LockstepInv (workload.map WorkloadCommand.command) s polled r taken left lost frames)
    (fun _ event ⟨_, _, _, _, _, _, h⟩ => step_inv h event) ⟨_, _, _, _, _, _, start_inv h⟩ events

/-- In every run of the benchmark on a workload that was generated with at most a hundred thousand
levels, the server is at most one command behind the client: the engine has processed the first
commands of the workload in order, those that were answered and at most one more, there is never
more than one command in the inbound queue, and the session reports no protocol error. -/
theorem lockstep_sound {config : WorkloadConfig} {random : Nat → UInt64} {maxSize : UInt64}
    (hworkload : makeWorkload config random maxSize = some workload)
    (hlevels : config.bookLevels ≤ 100000) (events : List LockstepEvent) :
    let s := run workload events
    let engine := s.exchange.engine
    engine.processed.map InboundMessage.command =
      (workload.take engine.processed.length).map WorkloadCommand.command ∧
    s.commands ≤ engine.processed.length ∧
    engine.processed.length + engine.service.inbound.size ≤ s.commands + 1 ∧
    engine.service.metrics.inboundQueueHighWater ≤ 1 ∧
    ∀ r ∈ s.exchange.sessions, r.connection.errors = [] := by
  obtain ⟨polled, r, taken, left, lost, frames, hinv⟩ :=
    run_inv (ordered_of_makeWorkload hworkload hlevels) events
  have hcounts := hinv.counts
  have hwaiting := Bool.toNat_le (run workload events).waiting
  rw [Lockstep.sent] at hcounts
  refine ⟨?_, hcounts.1, by omega, hinv.shallow, fun r' hr' => ?_⟩
  · rw [hinv.processed_commands, List.map_take]
  · rw [hinv.sessions, List.mem_singleton] at hr'
    exact hr' ▸ hinv.aligned.errors

/-- An order and its cancel, as they are generated. -/
def orderAndCancel : List WorkloadCommand :=
  [⟨0, .submit
      ⟨SequenceNumber.of 1, OrderId.of 1, .sell, .limit, Quantity.of 2, some (Price.of 100002)⟩⟩,
    ⟨0, .cancel ⟨SequenceNumber.of 2, OrderId.of 1⟩⟩]

theorem orderAndCancel_made :
    makeWorkload ⟨2, 1, 1, 100, 0⟩ (fun _ => 1) 1000 = some orderAndCancel := by
  decide +kernel

/-- The steps of a command up to its response. -/
def served : List LockstepEvent :=
  [.send, .deliver 100, .server (.read 0 false), .server (.read 0 false), .server .process,
    .server .process, .server .push, .server .poll, .server (.write 0 false), .server .process,
    .receive]

theorem orderAndCancel_sound :
    let s := run orderAndCancel (served ++ [.send, .fail 0])
    s.commands = 1 ∧ s.commands ≤ s.exchange.engine.processed.length ∧
      s.exchange.engine.processed.length + s.exchange.engine.service.inbound.size ≤ 2 := by
  have hone : (run orderAndCancel (served ++ [.send, .fail 0])).commands = 1 := by decide +kernel
  obtain ⟨-, hanswered, hahead, -⟩ :=
    lockstep_sound orderAndCancel_made (by decide) (served ++ [.send, .fail 0])
  exact ⟨hone, hanswered, by omega⟩

/-! ## The core benchmark on the same workload -/

theorem sum_toNat {A : Type*} (p : A → Bool) (l : List A) :
    (l.map fun a => (p a).toNat).sum = l.countP p := by
  induction l with
  | nil => rfl
  | cons a l ih =>
    rw [List.map_cons, List.sum_cons, ih, List.countP_cons, Nat.add_comm]
    cases p a <;> rfl

/-- With one symbol all commands are for one book. -/
theorem commandsAt_zero (h : InRange 1 workload) :
    commandsAt workload 0 = workload.map WorkloadCommand.command := by
  have hall : (keyed workload).filter (fun i => i.1 = 0) = keyed workload := by
    refine List.filter_eq_self.mpr (List.forall_mem_map.mpr fun item hmem => ?_)
    have hitem := h item hmem
    exact decide_eq_true (by omega)
  rw [commandsAt, Transducer.inputsAt, hall, keyed, List.map_map]
  rfl

theorem total_one (h : InRange 1 workload) (w : Command → Result → Nat) :
    total 1 w workload =
      ((OrderBook.trace (workload.map WorkloadCommand.command)).map fun x => w x.1 x.2).sum := by
  rw [total, Finset.sum_range_one, commandsAt_zero h]

/-- The bytes that the server counts are those of the frames. -/
theorem receivedBytes_eq {processed : List InboundMessage} {sessionId : UInt64}
    {commands : List Command}
    (h : processed = commands.map fun c => messageOf sessionId (commandType c).value c) :
    receivedBytes processed = (commands.flatMap commandFrame).length := by
  rw [receivedBytes, h, List.map_map, List.length_flatMap]
  congr 1
  apply List.map_congr_left
  intro c _
  rw [length_commandFrame]
  cases c <;> rfl

/-- When the client has got all its responses and the engine thread has ended, which it does behind
`process_one`, the server has counted on a workload that was generated for one symbol, with at
most a hundred thousand levels, what the core benchmark counts on it. The inbound queue was never
seen with more than one message, which may have come after `process_one` looked at its size. -/
theorem gateway_benchmark_agrees {config : WorkloadConfig} {random : Nat → UInt64}
    {maxSize : UInt64} (hworkload : makeWorkload config random maxSize = some workload)
    (hadmitted : config.admitted) (hlevels : config.bookLevels ≤ 100000)
    (hsymbols : config.symbolCount = 1) (maxBooks : UInt64)
    (hbooks : config.symbolCount ≤ maxBooks) (warmup : UInt64) (nanoseconds : Nat → UInt64)
    {events : List LockstepEvent}
    (hanswered : (run workload events).commands = workload.length)
    (hreturned : (run workload events).exchange.call.handling = false) :
    let result := (run workload events).result
    ∃ core, runCoreBenchmark maxBooks workload config.symbolCount warmup nanoseconds = some core ∧
      result.commands = core.commands ∧
      result.acceptedCommands = core.acceptedCommands ∧
      result.rejectedCommands = core.rejectedCommands ∧
      result.acceptedCancels = core.acceptedCancels ∧
      result.rejectedCancels = core.rejectedCancels ∧
      result.executions = core.executions ∧
      result.inboundBytes = UInt64.ofNat
        ((workload.map WorkloadCommand.command).flatMap commandFrame).length ∧
      result.inboundQueueHighWater ≤ 1 := by
  have hwell := wellFormed_of_makeWorkload hadmitted hlevels hworkload
  have hne : workload ≠ [] := by
    rintro rfl
    have hcount : config.commandCount = 0 := UInt64.toNat_inj.mp hwell.length.symm
    simp [WorkloadConfig.admitted, hcount] at hadmitted
  have hrange := hwell.fits.inRange
  obtain ⟨m, hcore, hresult⟩ := runCoreBenchmark_measured warmup nanoseconds hne hrange hbooks
  rw [hsymbols] at hrange hcore hresult ⊢
  have hone : (1 : UInt64).toNat = 1 := rfl
  rw [hone] at hrange hcore
  -- the server has processed the whole workload
  obtain ⟨polled, r, taken, left, lost, frames, hinv⟩ := run_inv hwell.fits.ordered events
  have hcounts := hinv.counts
  have hsent := hinv.sent
  rw [List.length_map] at hsent
  have hprocessed : (run workload events).exchange.engine.processed.map InboundMessage.command =
      workload.map WorkloadCommand.command := by
    rw [hinv.processed_commands, List.take_of_length_le]
    rw [List.length_map]
    omega
  have hempty : (run workload events).exchange.engine.service.inbound.items = [] := by
    rw [← List.length_eq_zero_iff, ← BoundedFifo.size]
    omega
  have hreceived := hinv.received_eq
  rw [Exchange.received, hempty, List.append_nil] at hreceived
  have htaken : taken = workload.map WorkloadCommand.command := by
    rw [← hinv.received_commands, Exchange.received, hempty, List.append_nil, hprocessed]
  have hmetrics := hinv.metrics.holds
  rw [Exchange.finished_of_not_handling hreturned] at hmetrics
  have hcounted : ∀ (p : Command → Result → Bool),
      UInt64.ofNat (countOf (run workload events).exchange.engine.processed fun x => p x.1 x.2) =
        UInt64.ofNat (total 1 (fun c x => (p c x).toNat) workload) := by
    intro p
    rw [countOf, hprocessed, total_one hrange, sum_toNat fun x : Command × Result => p x.1 x.2]
  refine ⟨_, hresult, ?_, ?_, ?_, ?_, ?_, ?_, ?_, ?_⟩
  · exact congrArg UInt64.ofNat hanswered
  · exact hmetrics.acceptedCommands.trans ((hcounted _).trans hcore.acceptedCommands.symm)
  · exact hmetrics.rejectedCommands.trans ((hcounted _).trans hcore.rejectedCommands.symm)
  · exact hmetrics.acceptedCancels.trans ((hcounted _).trans hcore.acceptedCancels.symm)
  · exact hmetrics.rejectedCancels.trans ((hcounted _).trans hcore.rejectedCancels.symm)
  · refine hmetrics.executions.trans (Eq.trans ?_ hcore.executions.symm)
    rw [executionCount, hprocessed, total_one hrange]
    rfl
  · refine hmetrics.inboundBytes.trans ?_
    rw [receivedBytes_eq hreceived, htaken]
  · have hmark := hinv.shallow
    rw [Shallow] at hmark
    rw [UInt64.le_iff_toNat_le, Lockstep.result, UInt64.toNat_ofNat_of_lt' (hmark.trans_lt (by decide))]
    exact hmark

theorem orderAndCancel_agrees : ∃ core,
    runCoreBenchmark 1000 orderAndCancel 1 10 (fun _ => 100) = some core ∧
    (run orderAndCancel (served ++ served)).result.acceptedCancels = core.acceptedCancels := by
  have hanswered : (run orderAndCancel (served ++ served)).commands = orderAndCancel.length := by
    decide +kernel
  obtain ⟨core, hcore, -, -, -, hcancels, -⟩ :=
    gateway_benchmark_agrees orderAndCancel_made (by decide) (by decide) rfl 1000 (by decide) 10
      (fun _ => 100) hanswered (by decide +kernel)
  exact ⟨core, hcore, hcancels⟩

end Lockstep

end LowLatencyExchange.Benchmark
