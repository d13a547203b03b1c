import LowLatencyExchange.Benchmark.Lockstep
import LowLatencyExchange.Exchange.Quiescence
import LowLatencyExchange.Library.Fairness
import Mathlib.Tactic

/-!
# The gateway benchmark ends

As long as nothing fails, some thread, handler or buffer of the network can always move on, until
the client has got all its responses. So on every fair schedule the benchmark ends.
-/
namespace LowLatencyExchange.Benchmark

open Protocol EventLog MatchingEngineService TcpSession

/-- The turns that do not fail. -/
inductive Turn where
  | send
  | receive
  | deliver (count : Nat)
  | read
  | process
  | push
  | poll
  | write
  deriving DecidableEq

def Turn.event : Turn → LockstepEvent
  | .send => .send
  | .receive => .receive
  | .deliver count => .deliver (count + 1)
  | .read => .server (.read 0 false)
  | .process => .server .process
  | .push => .server .push
  | .poll => .server .poll
  | .write => .server (.write 0 false)

/-- Who takes the turn. The network may bring any number of bytes. -/
def Turn.thread : Turn → Turn
  | .deliver _ => .deliver 0
  | turn => turn

/-! ## The session without failures -/

/-- The session is served, and reads on. -/
structure Healthy (c : Connection) : Prop where
  registered : c.registered = true
  closeAfterWrite : c.closeAfterWrite = false
  reading : c.reading ≠ none
  writes : Writes c

theorem Healthy.onPoll {c : Connection} (h : Healthy c) (message : OutboundMessage) :
    Healthy (onPoll c message) := by
  have hview := readerView_onPoll c message
  have hwrites := onPoll_writes h.writes message
  refine ⟨?_, ?_, ?_, hwrites⟩
  · unfold TcpSession.onPoll
    split_ifs
    · rw [sendRawFrame_registered]
      exact h.registered
    · exact h.registered
  · unfold TcpSession.onPoll sendRawFrame
    dsimp only
    split_ifs <;> exact h.closeAfterWrite
  · rw [show (TcpSession.onPoll c message).reading = c.reading from congrArg ReaderView.reading hview]
    exact h.reading

theorem Healthy.onWrite {c : Connection} (h : Healthy c) : Healthy (onWrite c false) := by
  have hview := readerView_onWrite c false
  refine ⟨?_, ?_, ?_, onWrite_writes false⟩
  · unfold TcpSession.onWrite
    simp only [h.closeAfterWrite, Bool.false_eq_true, if_false]
    split_ifs <;> exact h.registered
  · unfold TcpSession.onWrite
    simp only [h.closeAfterWrite, Bool.false_eq_true, if_false]
    split_ifs <;> rfl
  · rw [show (TcpSession.onWrite c false).reading = c.reading from congrArg ReaderView.reading hview]
    exact h.reading

/-- What a read does that finds its bytes and rejects nothing. -/
inductive ReadsOn (c c' : Connection) : Prop
  | header (header : WireHeader) (hr : c.reading = some .header)
      (hr' : c'.reading = some (.payload header)) (hp : c'.pushed = c.pushed)
      (hw : writerView c' = writerView c) (hg : c'.registered = c.registered)
  | payload (header : WireHeader) (message : InboundMessage)
      (hr : c.reading = some (.payload header)) (hr' : c'.reading = some .header)
      (hp : c'.pushed = c.pushed ++ [message])
      (hw : writerView c' = writerView c) (hg : c'.registered = c.registered)

theorem readable_iff {r : SessionRun} : readable r = true ↔ ∃ reading,
    r.connection.reading = some reading ∧
      Reading.requested reading ≤ r.connection.unread.length := by
  simp [readable, Option.any_eq_true]

theorem sendProtocolError_errors (c : Connection) (code : ErrorCode) (type : UInt8) :
    (sendProtocolError c code type).errors ≠ c.errors := by
  have herrors := congrArg ReaderView.errors (readerView_sendProtocolError c code type)
  intro heq
  have hlength := congrArg List.length (herrors.symm.trans heq)
  simp at hlength

/-- A read that finds its bytes does not unregister the session. -/
theorem onRead_registers {r : SessionRun} (hready : readable r = true) (tryPush : Nat → Bool) :
    (onRead tryPush r.connection false).registered = r.connection.registered := by
  obtain ⟨reading, hreading, hsize⟩ := readable_iff.mp hready
  have hdelivered : ∃ bytes, delivered { r.connection with reading := none }
      (Reading.requested reading) false = some bytes := by
    rw [delivered, if_neg (by simpa using hsize)]
    exact ⟨_, rfl⟩
  obtain ⟨bytes, hbytes⟩ := hdelivered
  unfold onRead
  rw [hreading]
  cases reading with
  | header =>
    obtain ⟨header, hdecoded⟩ := decodeHeader_isSome (delivered_eq_some hbytes).1
    rw [Reading.requested] at hbytes
    simp only [onReadHeader, hbytes, hdecoded]
    cases validateHeader header <;> simp [sendProtocolError_eq, doReadPayload]
  | payload header =>
    rw [Reading.requested] at hbytes
    simp only [onReadPayload, hbytes]
    cases decodePayload header.type bytes with
    | error code => simp [sendProtocolError_eq]
    | ok command =>
      simp only [enqueueCommand]
      split_ifs <;> simp [sendProtocolError_eq, doReadHeader]

theorem onRead_readsOn {r : SessionRun} {tryPush : Nat → Bool} (hready : readable r = true)
    (herrors : (onRead tryPush r.connection false).errors = r.connection.errors) :
    ReadsOn r.connection (onRead tryPush r.connection false) := by
  obtain ⟨reading, hreading, hsize⟩ := readable_iff.mp hready
  have hregistered := onRead_registers hready tryPush
  have hstep := onRead_readStep tryPush r.connection false
  have heffect := onRead_effect tryPush r.connection false
  generalize onRead tryPush r.connection false = c' at *
  have hwriter : writerView c' = writerView r.connection := by
    cases heffect with
    | quiet _ hw _ => exact hw
    | error c₁ code type hw _ _ =>
      have hsame : c₁.errors = r.connection.errors := congrArg WriterView.errors hw
      exact absurd (herrors.trans hsame.symm) (sendProtocolError_errors c₁ code type)
  generalize hview : readerView c' = v' at hstep
  have hgrown : ∀ code type, v'.errors ≠ r.connection.errors ++ [⟨code, type⟩] := by
    intro code type heq
    have hlength := congrArg List.length ((congrArg ReaderView.errors hview).trans heq)
    simp [readerView, herrors] at hlength
  cases hstep with
  | idle hr => simp [readerView, hreading] at hr
  | failed reading' hr hfail =>
    obtain rfl : reading = reading' := by simpa [readerView, hreading] using hr
    simp only [Bool.false_eq_true, false_or] at hfail
    exact absurd hsize (Nat.not_le.mpr hfail)
  | headerRejected headerBytes rest header code hr hu hlen hd hc => exact absurd rfl (hgrown _ _)
  | frameRejected header payload rest code hr hu hlen hc => exact absurd rfl (hgrown _ _)
  | headerAccepted headerBytes rest header hr hu hlen hd hc =>
    exact .header header hr (congrArg ReaderView.reading hview) (congrArg ReaderView.pushed hview)
      hwriter hregistered
  | enqueued header payload rest command hr hu hlen hd hc =>
    exact .payload header _ hr (congrArg ReaderView.reading hview)
      (congrArg ReaderView.pushed hview) hwriter hregistered

/-! ## What is left to do -/

namespace Lockstep

variable (workload : List WorkloadCommand)

/-- The messages that the session pushes for the workload. -/
def messages : List InboundMessage :=
  workload.map fun item => messageOf 1 (commandType item.command).value item.command

/-- The messages that the engine has still to push. -/
def unpushed (s : Lockstep) : Nat :=
  (answers s.exchange.engine.service.book s.exchange.engine.service.orderSessions
    ((messages workload).drop s.exchange.engine.processed.length)).length +
      s.exchange.pending.length

/-- The bytes that have not arrived at the server. -/
def unarrived (s : Lockstep) : List UInt8 :=
  s.inFlight ++ ((workload.map WorkloadCommand.command).drop s.sent).flatMap commandFrame

/-- The reads and the writes that are left to a session, and the bytes that were queued for it. A
read counts twice, as the message that it pushes can make a step of `process_one` count. -/
def sessionLeft (r : SessionRun) : Nat :=
  4 * (workload.length - r.connection.pushed.length) -
      (if r.connection.reading = some .header then 0 else 2) +
    r.connection.writeQueue.length + (r.queued.flatMap QueuedFrame.bytes).length

/-- A bound on the turns that count. A message is polled to become a frame of at most 48 bytes. -/
def stepsLeft (s : Lockstep) : Nat :=
  (workload.length - s.sent) + (s.unarrived workload).length +
    (3 * (workload.length - s.exchange.engine.processed.length) + s.exchange.callLeft) +
    51 * s.unpushed workload + 50 * s.exchange.outbound.size +
    ((s.exchange.sessions.map (sessionLeft workload)).sum - s.received)

/-- The turn that the others wait for. -/
def needed (s : Lockstep) : Turn :=
  if s.waiting = false then .send
  else if s.received < s.replies.length then .receive
  else if s.inFlight ≠ [] then .deliver 0
  else if s.exchange.outbound.items ≠ [] then .poll
  else if s.exchange.pending ≠ [] then .push
  else if s.exchange.Unanswered then .process
  else if s.exchange.sessions.any fun r => r.connection.writing then .write
  else .read

/-- A run without failures, as far as it went. -/
structure Running (s : Lockstep) : Prop where
  inv : ∃ polled r taken left lost frames,
    LockstepInv (workload.map WorkloadCommand.command) s polled r taken left lost frames
  running : s.stopped = false
  healthy : ∀ r ∈ s.exchange.sessions, Healthy r.connection

/-- The client is through the workload. -/
def Finished (s : Lockstep) : Prop := s.commands = workload.length

/-- A turn lowers what is left to do, or leaves it and the turn that is needed what they are. -/
def Works (s : Lockstep) (turn : Turn) : Prop :=
  (s.step workload turn.event).stepsLeft workload < s.stepsLeft workload ∨
    (s.step workload turn.event).stepsLeft workload = s.stepsLeft workload ∧
      (s.step workload turn.event).needed = s.needed ∧ turn.thread ≠ s.needed

variable {workload} {s : Lockstep}

/-- A turn that changes nothing, and is not the one that is needed. -/
theorem works_of_same {turn : Turn} (hsame : s.step workload turn.event = s)
    (hother : turn.thread ≠ s.needed) : Works workload s turn :=
  .inr ⟨congrArg (stepsLeft workload) hsame, congrArg needed hsame, hother⟩

theorem Running.waits (h : Running workload s) (hunfinished : ¬ Finished workload s)
    (hwaiting : s.waiting = false) : ∃ item, workload[s.commands]? = some item := by
  obtain ⟨polled, r, taken, left, lost, frames, hinv⟩ := h.inv
  have hsent := hinv.sent
  rw [sent, hwaiting, List.length_map] at hsent
  have hne : s.commands ≠ workload.length := hunfinished
  exact ⟨_, List.getElem?_eq_getElem (by simp at hsent; omega)⟩

theorem send_works (h : Running workload s) (hunfinished : ¬ Finished workload s) :
    Works workload s .send := by
  cases hwaiting : s.waiting with
  | true =>
    refine works_of_same ?_ ?_
    · simp [Turn.event, step, send, hwaiting]
    · unfold needed
      split_ifs <;> simp_all [Turn.thread]
  | false =>
    obtain ⟨item, hitem⟩ := h.waits hunfinished hwaiting
    obtain ⟨hlt, hget⟩ := List.getElem?_eq_some_iff.mp hitem
    have hrest : ((workload.map WorkloadCommand.command).drop s.commands).flatMap commandFrame =
        commandFrame item.command ++
          ((workload.map WorkloadCommand.command).drop (s.commands + 1)).flatMap commandFrame := by
      rw [List.drop_eq_getElem_cons (by simpa using hlt), List.flatMap_cons, List.getElem_map, hget]
    left
    simp only [Turn.event, step, send, hwaiting, h.running, next, hitem, Option.map_some,
      encodeCommand_eq, stepsLeft, unarrived, sent, Bool.toNat_false, Bool.toNat_true, Nat.add_zero,
      hrest, List.append_assoc, Bool.or_false, Bool.false_eq_true, if_false, unpushed]
    omega

/-- The client has read some of the bytes queued for it. -/
theorem stepsLeft_of_received {s' : Lockstep} (hexchange : s'.exchange = s.exchange)
    (hinFlight : s'.inFlight = s.inFlight) (hsent : s'.sent = s.sent)
    (hlt : s.received < s'.received)
    (hle : s'.received ≤ (s.exchange.sessions.map (sessionLeft workload)).sum) :
    s'.stepsLeft workload < s.stepsLeft workload := by
  simp only [stepsLeft, unarrived, unpushed, hexchange, hinFlight, hsent]
  omega

theorem receive_works (h : Running workload s) : Works workload s .receive := by
  obtain ⟨polled, r, taken, left, lost, frames, hinv⟩ := h.inv
  obtain ⟨more, hmore, hdrop, hlength⟩ := hinv.replies_drop
  cases hwaiting : s.waiting with
  | false =>
    refine works_of_same ?_ ?_
    · simp [Turn.event, step, receive, hwaiting]
    · simp [needed, hwaiting, Turn.thread]
  | true =>
    cases more with
    | nil =>
      refine works_of_same ?_ ?_
      · simp [Turn.event, step, receive, hwaiting, h.running, hdrop, readFrame_nil]
      · have hle : s.replies.length ≤ s.received := List.drop_eq_nil_iff.mp hdrop
        unfold needed
        split_ifs <;> first | omega | simp [Turn.thread]
    | cons f more =>
      left
      obtain ⟨msg, hframed⟩ := hinv.framed f (hmore.subset (by simp))
      obtain ⟨header, hread, -⟩ := readFrame_framed hframed (more.flatMap QueuedFrame.bytes)
      have hsize := hlength (List.cons_ne_nil _ _)
      have hframe := List.length_pos_iff.mpr hframed.nonempty
      have hqueued := (hmore.flatMap QueuedFrame.bytes).length_le
      have hreceived := hinv.received
      simp only [List.flatMap_append, List.flatMap_cons, List.length_append] at hsize hqueued
      have hsum : (s.exchange.sessions.map (sessionLeft workload)).sum = sessionLeft workload r := by
        rw [hinv.sessions, List.map_singleton, List.sum_singleton]
      have hbytes : (r.queued.flatMap QueuedFrame.bytes).length ≤ sessionLeft workload r :=
        Nat.le_add_left _ _
      simp only [Turn.event, step, receive, hwaiting, h.running, hdrop, List.flatMap_cons, hread,
        Bool.not_false, Bool.and_self, if_true]
      generalize hafter : (if isTerminal header.type = true then _ else _ : Lockstep) = s'
      have hsame : s'.exchange = s.exchange ∧ s'.inFlight = s.inFlight ∧ s'.sent = s.sent ∧
          s'.received = s.received + f.bytes.length := by
        rw [← hafter]
        split_ifs
        · refine ⟨rfl, rfl, by simp [sent, hwaiting], ?_⟩
          dsimp only
          omega
        · refine ⟨rfl, rfl, by simp [sent, hwaiting], ?_⟩
          dsimp only
          omega
      obtain ⟨hexchange, hinFlight, hsent, hafter⟩ := hsame
      exact stepsLeft_of_received hexchange hinFlight hsent (by omega) (by omega)

theorem deliver_works (count : Nat) : Works workload s (.deliver count) := by
  cases hinFlight : s.inFlight with
  | nil =>
    refine works_of_same ?_ ?_
    · have hsame : (fun r : SessionRun => { r with
          connection := { r.connection with unread := r.connection.unread ++ [] } }) = id := by
        funext r
        rw [List.append_nil]
        rfl
      simp only [Turn.event, step, deliver, hinFlight, List.drop_nil, List.take_nil, hsame, List.map_id]
      rw [← hinFlight]
    · unfold needed
      split_ifs <;> simp_all [Turn.thread]
  | cons byte bytes =>
    left
    have hsum : ((s.deliver (count + 1)).exchange.sessions.map (sessionLeft workload)).sum =
        (s.exchange.sessions.map (sessionLeft workload)).sum := by
      rw [deliver, List.map_map]
      rfl
    have hunpushed : (s.deliver (count + 1)).unpushed workload = s.unpushed workload := rfl
    have hsent : (s.deliver (count + 1)).sent = s.sent := rfl
    have hcall : (s.deliver (count + 1)).exchange.callLeft = s.exchange.callLeft := rfl
    simp only [Turn.event, step, stepsLeft, hsum, hunpushed, hsent, hcall, unarrived]
    simp only [deliver, hinFlight, List.length_append, List.length_drop, List.length_cons]
    omega

/-! ### The engine -/

/-- The exchange is another one with the same sessions. -/
theorem stepsLeft_of_exchange {exchange : Exchange} (hsessions : exchange.sessions = s.exchange.sessions)
    (hlt : 3 * (workload.length - exchange.engine.processed.length) + exchange.callLeft +
        51 * { s with exchange := exchange }.unpushed workload + 50 * exchange.outbound.size <
      3 * (workload.length - s.exchange.engine.processed.length) + s.exchange.callLeft +
        51 * s.unpushed workload + 50 * s.exchange.outbound.size) :
    { s with exchange := exchange }.stepsLeft workload < s.stepsLeft workload := by
  have hsent : { s with exchange := exchange }.sent = s.sent := rfl
  simp only [stepsLeft, unarrived, hsessions, hsent]
  omega

theorem unpushed_of_rests {exchange : Exchange} (h : s.exchange.Rests exchange) :
    { s with exchange := exchange }.unpushed workload = s.unpushed workload := by
  simp only [unpushed, h.book, h.orderSessions, h.processed, h.pending]

/-- `process_one` comes and goes while the inbound queue is empty. -/
theorem works_of_rests {exchange : Exchange}
    (hstep : s.step workload Turn.process.event = { s with exchange := exchange })
    (hrests : s.exchange.Rests exchange)
    (hcall : exchange.call.handling = s.exchange.call.handling)
    (hanswered : ¬ s.exchange.Unanswered) : Works workload s .process := by
  have hanswered' := Exchange.unanswered_of_rests hrests hcall
  have hsent : { s with exchange := exchange }.sent = s.sent := rfl
  rw [Works, hstep]
  refine .inr ⟨?_, ?_, ?_⟩
  · simp only [stepsLeft, Exchange.callLeft, unpushed_of_rests hrests, hsent, unarrived, hanswered',
      if_neg hanswered, hrests.connections, hrests.outbound, hrests.processed]
  · have hreplies : { s with exchange := exchange }.replies = s.replies := by
      rw [Lockstep.replies, Lockstep.replies, hrests.connections]
    simp only [needed, hreplies, hrests.connections, hrests.outbound, hrests.pending, hanswered']
  · unfold needed
    split_ifs <;> simp_all [Turn.thread]

/-- The messages are those received, and those of the commands still to come. -/
theorem messages_eq {polled : List OutboundMessage} {r : SessionRun} {taken left : List Command}
    {lost : List UInt8} {frames : List QueuedFrame}
    (h : LockstepInv (workload.map WorkloadCommand.command) s polled r taken left lost frames) :
    messages workload =
      s.exchange.received ++ left.map fun c => messageOf 1 (commandType c).value c := by
  have hid : r.connection.sessionId = 1 := h.sound.sessionId
  rw [h.received_eq, hid, ← List.map_append, h.split, messages, List.map_map]
  rfl

/-- `process_one` takes the next command of the workload. -/
theorem stepsLeft_of_takes {polled : List OutboundMessage} {r : SessionRun}
    {taken left : List Command} {lost : List UInt8} {frames : List QueuedFrame}
    (hinv : LockstepInv (workload.map WorkloadCommand.command) s polled r taken left lost frames)
    {message : InboundMessage} {exchange : Exchange} (hcall : s.exchange.call = .sized)
    (htakes : s.exchange.Takes exchange message) :
    { s with exchange := exchange }.stepsLeft workload < s.stepsLeft workload := by
  have hmessages := messages_eq hinv
  rw [Exchange.received, htakes.inbound] at hmessages
  have hnow : (messages workload).drop s.exchange.engine.processed.length =
      message :: (messages workload).drop (s.exchange.engine.processed.length + 1) := by
    rw [hmessages, List.append_assoc, ← List.drop_drop, List.drop_left]
    rfl
  have hcounts := hinv.counts
  have hsent := hinv.sent
  rw [BoundedFifo.size, htakes.inbound, List.length_cons] at hcounts
  rw [List.length_map] at hsent
  obtain ⟨hleft, hleft'⟩ := Exchange.callLeft_take htakes hcall
  refine stepsLeft_of_exchange htakes.connections ?_
  simp only [unpushed, hnow, answers, htakes.book, htakes.orderSessions, htakes.pending,
    htakes.outbound, htakes.processed, Exchange.pending_of_call hcall, EngineCall.pending, hleft,
    hleft', List.length_append, List.length_singleton, List.length_nil]
  omega

theorem process_works (h : Running workload s) : Works workload s .process := by
  obtain ⟨polled, r, taken, left, lost, frames, hinv⟩ := h.inv
  have hstep : s.step workload Turn.process.event = { s with exchange := s.exchange.process } := rfl
  cases hcall : s.exchange.call with
  | idle =>
    obtain ⟨hrests, hcall'⟩ := Exchange.process_sizes hcall
    by_cases hanswered : s.exchange.Unanswered
    · obtain ⟨hleft, hleft'⟩ := Exchange.callLeft_size hcall hcall'
      left
      rw [hstep]
      refine stepsLeft_of_exchange hrests.connections ?_
      rw [if_pos hanswered] at hleft
      rw [hleft, hleft', unpushed_of_rests hrests, hrests.processed, hrests.outbound]
      omega
    · exact works_of_rests hstep hrests (by rw [hcall, hcall']; rfl) hanswered
  | sized =>
    cases hpop : s.exchange.engine.service.inbound.tryPop with
    | none =>
      obtain ⟨hrests, hcall'⟩ := Exchange.process_none hcall hpop
      refine works_of_rests hstep hrests (by rw [hcall, hcall']; rfl) ?_
      simp [Exchange.Unanswered, hcall, EngineCall.handling, BoundedFifo.items_of_tryPop_none hpop]
    | some popped =>
      have htakes := Exchange.process_takes hinv.exchange.groups.sessions.inv hcall hpop
      exact .inl (hstep ▸ stepsLeft_of_takes hinv hcall htakes)
  | answering message accepted pending =>
    cases pending with
    | nil =>
      obtain ⟨hrests, hcall'⟩ := Exchange.process_finishes hcall
      have hleft := Exchange.callLeft_answering hcall
      have hleft' := Exchange.callLeft_idle hcall'
      left
      rw [hstep]
      refine stepsLeft_of_exchange hrests.connections ?_
      rw [hleft, unpushed_of_rests hrests, hrests.processed, hrests.outbound]
      omega
    | cons msg pending =>
      have hsame : s.exchange.process = s.exchange := by simp only [Exchange.process, hcall]
      have hpending : s.exchange.pending ≠ [] := by
        rw [Exchange.pending_of_call hcall]
        exact List.cons_ne_nil msg pending
      refine works_of_same (by rw [hstep, hsame]) ?_
      unfold needed
      split_ifs <;> simp_all [Turn.thread]

theorem push_works : Works workload s .push := by
  have hstep : s.step workload Turn.push.event = { s with exchange := s.exchange.push } := rfl
  have hpush := s.exchange.push_step
  generalize s.exchange.push = exchange at hpush hstep
  cases hpush with
  | none hpending =>
    refine works_of_same hstep ?_
    unfold needed
    split_ifs <;> simp_all [Turn.thread]
  | full hpending hfull =>
    have hitems : s.exchange.outbound.items ≠ [] := by
      rw [← List.length_pos_iff, ← BoundedFifo.size, hfull]
      decide
    refine works_of_same hstep ?_
    unfold needed
    split_ifs <;> simp_all [Turn.thread]
  | push message accepted msg pending outbound hcall houtbound =>
    have hleft := Exchange.callLeft_answering hcall
    generalize hafter : Exchange.mk _ _ _ (.answering message accepted pending) outbound = exchange
      at hstep
    have hleft' : exchange.callLeft = 2 :=
      Exchange.callLeft_answering (congrArg Exchange.call hafter.symm)
    left
    rw [hstep]
    refine stepsLeft_of_exchange (by rw [← hafter]) ?_
    rw [hleft, hleft', ← hafter]
    simp only [unpushed, Exchange.pending, hcall, EngineCall.pending, BoundedFifo.size, houtbound,
      List.length_append, List.length_cons, List.length_nil]
    omega

/-! ### The session -/

/-- A step of the session, and perhaps of the outbound queue. -/
theorem stepsLeft_of_session {exchange : Exchange} {r r' : SessionRun}
    (hone : s.exchange.sessions = [r]) (hone' : exchange.sessions = [r'])
    (hreceived : s.received ≤ (r.queued.flatMap QueuedFrame.bytes).length)
    (hqueued : r.queued <+: r'.queued)
    (hprocessed : exchange.engine.processed = s.exchange.engine.processed)
    (hunpushed : { s with exchange := exchange }.unpushed workload = s.unpushed workload)
    (hlt : sessionLeft workload r' + exchange.callLeft + 50 * exchange.outbound.size <
      sessionLeft workload r + s.exchange.callLeft + 50 * s.exchange.outbound.size) :
    { s with exchange := exchange }.stepsLeft workload < s.stepsLeft workload := by
  have hsent : { s with exchange := exchange }.sent = s.sent := rfl
  have hle := (hqueued.flatMap QueuedFrame.bytes).length_le
  have hbytes : (r'.queued.flatMap QueuedFrame.bytes).length ≤ sessionLeft workload r' :=
    Nat.le_add_left _ _
  simp only [stepsLeft, unarrived, hone, hone', hprocessed, hunpushed, hsent, List.map_singleton,
    List.sum_singleton]
  omega

theorem LockstepInv.received_le {commands taken left : List Command}
    {polled : List OutboundMessage} {r : SessionRun} {lost : List UInt8} {frames : List QueuedFrame}
    (h : LockstepInv commands s polled r taken left lost frames) :
    s.received ≤ (r.queued.flatMap QueuedFrame.bytes).length := by
  rw [h.received]
  exact (h.queued.flatMap QueuedFrame.bytes).length_le

theorem write_works (h : Running workload s) : Works workload s .write := by
  obtain ⟨polled, r, taken, left, lost, frames, hinv⟩ := h.inv
  have hone : (s.exchange.step (.write 0 false)).sessions = [r.write false] := by
    simp only [Exchange.step, hinv.sessions, List.modify_zero_cons]
  have hstep : s.step workload Turn.write.event =
      { s with exchange := s.exchange.step (.write 0 false) } := rfl
  cases hwriting : r.connection.writing with
  | false =>
    have hsame : s.exchange.step (.write 0 false) = s.exchange := by
      rw [SessionRun.write, if_neg (by simp [hwriting]), ← hinv.sessions] at hone
      simp only [Exchange.step] at hone ⊢
      rw [hone]
    refine works_of_same (by rw [hstep, hsame]) ?_
    unfold needed
    rw [hinv.sessions]
    split_ifs <;> simp_all [Turn.thread]
  | true =>
    left
    rw [hstep]
    have hqueue := GatewayRun.length_write hinv.sound.sending hwriting
    have hview := readerView_onWrite r.connection false
    have hconnection : (r.write false).connection = TcpSession.onWrite r.connection false ∧
        (r.write false).queued = r.queued := by
      rw [SessionRun.write, if_pos hwriting]
      exact ⟨rfl, rfl⟩
    have hpushed : (r.write false).connection.pushed = r.connection.pushed := by
      rw [hconnection.1]
      exact congrArg ReaderView.pushed hview
    have hreading : (r.write false).connection.reading = r.connection.reading := by
      rw [hconnection.1]
      exact congrArg ReaderView.reading hview
    refine stepsLeft_of_session hinv.sessions hone (LockstepInv.received_le hinv)
      (hconnection.2 ▸ List.prefix_refl _) rfl rfl ?_
    have hcall : (s.exchange.step (.write 0 false)).callLeft = s.exchange.callLeft := rfl
    simp only [sessionLeft, hpushed, hreading, hconnection.2, hcall]
    exact Nat.add_lt_add_right (Nat.add_lt_add_right (Nat.add_lt_add_right
      (Nat.add_lt_add_left hqueue _) _) _) _

/-- A frame of a message has at most 48 bytes. -/
theorem length_framed {msg : OutboundMessage} {frame : List UInt8} (h : Framed msg frame) :
    frame.length ≤ 48 := by
  obtain ⟨size, hsize, hlength⟩ := h.length
  obtain ⟨type, -, hpayload⟩ := expectedPayloadLength_eq_some hsize
  have hle := type.payloadSize_le
  have hheader : kHeaderSize = 8 := rfl
  omega

theorem poll_works (h : Running workload s) : Works workload s .poll := by
  obtain ⟨polled, r, taken, left, lost, frames, hinv⟩ := h.inv
  have hstep : s.step workload Turn.poll.event = { s with exchange := s.exchange.poll } := rfl
  cases hpop : s.exchange.outbound.tryPop with
  | none =>
    have hsame : s.exchange.poll = s.exchange := by simp only [Exchange.poll, hpop]
    have hempty := BoundedFifo.items_of_tryPop_none hpop
    refine works_of_same (by rw [hstep, hsame]) ?_
    unfold needed
    split_ifs <;> simp_all [Turn.thread]
  | some popped =>
    obtain ⟨message, outbound⟩ := popped
    have hitems := BoundedFifo.items_of_tryPop hpop
    have hpoll : s.exchange.poll =
        { s.exchange with sessions := [r.poll message], outbound := outbound } := by
      simp only [Exchange.poll, hpop, hinv.sessions, List.map_singleton]
    have hmessage : message ∈ s.exchange.engine.service.outbound := by
      rw [hinv.exchange.outbound, hitems]
      simp
    have hframe := length_framed (serializeOutbound_framed (hinv.exchange.frames.sendable _ hmessage))
    have hview := readerView_onPoll r.connection message
    have hqueues := onPoll_queues r.connection message
    have hqueued := SendingInv.react_queued hqueues
    have hqueue := hqueues.writeQueue
    have hpushed : (r.poll message).connection.pushed = r.connection.pushed :=
      congrArg ReaderView.pushed hview
    have hreading : (r.poll message).connection.reading = r.connection.reading :=
      congrArg ReaderView.reading hview
    change (r.poll message).queued = _ at hqueued
    change (r.poll message).connection.writeQueue = _ at hqueue
    left
    rw [hstep, hpoll]
    refine stepsLeft_of_session hinv.sessions rfl (LockstepInv.received_le hinv)
      (hqueued ▸ List.prefix_append _ _) rfl rfl ?_
    generalize hafter : Exchange.mk [r.poll message] _ _ _ outbound = exchange
    have hcall : exchange.callLeft = s.exchange.callLeft := by rw [← hafter]; rfl
    rw [hcall, ← hafter]
    simp only [sessionLeft, hpushed, hreading, hqueued, hqueue, BoundedFifo.size, hitems,
      List.flatMap_append, List.length_append, List.length_cons]
    split_ifs <;> simp only [List.flatMap_cons, List.flatMap_nil, List.append_nil, List.length_cons,
      List.length_nil] <;> omega

/-- When nobody else can move, the next command has arrived. -/
theorem readable_of_needed {polled : List OutboundMessage} {r : SessionRun}
    {taken left : List Command} {lost : List UInt8} {frames : List QueuedFrame}
    (hinv : LockstepInv (workload.map WorkloadCommand.command) s polled r taken left lost frames)
    (hrunning : s.stopped = false) (hhealthy : Healthy r.connection) (h : s.needed = .read) :
    readable r = true := by
  obtain ⟨hwaiting, hreplies, hinFlight, houtbound, hanswered, hwriting⟩ :
      s.waiting = true ∧ s.replies.length ≤ s.received ∧ s.inFlight = [] ∧
      s.exchange.outbound.items = [] ∧ ¬ s.exchange.Unanswered ∧
      r.connection.writing = false := by
    unfold needed at h
    rw [hinv.sessions] at h
    split_ifs at h
    simp_all
  -- every command that the session has pushed was answered
  have hsettled : (GatewayRun.mk s.exchange .serving .sleeping).Settled :=
    ⟨hanswered, houtbound, rfl, by simp [hinv.sessions, hwriting]⟩
  have hmem : r ∈ s.exchange.sessions := by simp [hinv.sessions]
  have hsent := hsettled.allSent hinv.exchange hinv.length_lt hmem hhealthy.writes
    hhealthy.registered
  obtain ⟨hown, hterminals⟩ := hsettled.allAnswered hinv.exchange hmem hsent
  have hpushed : taken.length = s.commands := by
    have hbytes : s.replies = r.queued.flatMap QueuedFrame.bytes := by
      simp [Lockstep.replies, hinv.sessions, hwriting, hsent.written]
    obtain ⟨more, hmore⟩ := hinv.queued
    have hnone : more = [] := by
      rw [hbytes, hinv.received, ← hmore, List.flatMap_append, List.length_append] at hreplies
      cases more with
      | nil => rfl
      | cons f more =>
        obtain ⟨msg, hframed⟩ := hinv.framed f (by simp [← hmore])
        have hpos := List.length_pos_iff.mpr hframed.nonempty
        rw [List.flatMap_cons, List.length_append] at hreplies
        omega
    rw [hnone, List.append_nil] at hmore
    have hlength := congrArg List.length hown
    have htaken := congrArg List.length hinv.aligned.pushed
    have hanswered := hinv.answered
    rw [List.countP_eq_length_filter, hmore, ← hsent.written, hterminals, List.length_map] at hanswered
    rw [List.length_map] at hlength htaken
    rw [hanswered, hlength, ← htaken]
    rfl
  have hleft : left = (workload.map WorkloadCommand.command).drop s.commands := by
    rw [← hinv.split, ← hpushed, List.drop_left]
  have hlt : s.commands < (workload.map WorkloadCommand.command).length := by
    have hsent := hinv.sent
    rw [sent, hwaiting] at hsent
    exact hsent
  have haligned := hinv.aligned.reads
  rw [hinFlight, hinv.lost hrunning, List.nil_append, List.nil_append, sent, hwaiting, hleft,
    List.drop_eq_getElem_cons hlt] at haligned
  rw [readable_iff]
  cases haligned with
  | header hr hu =>
    refine ⟨_, hr, ?_⟩
    rw [List.flatMap_cons, Bool.toNat_true, List.append_cancel_right_eq] at hu
    change kHeaderSize ≤ (readerView r.connection).unread.length
    rw [hu, length_commandFrame]
    exact Nat.le_add_right _ _
  | payload command rest hcons hr hu =>
    refine ⟨_, hr, ?_⟩
    obtain ⟨rfl, rfl⟩ := List.cons_eq_cons.mp hcons
    rw [Bool.toNat_true, List.append_cancel_right_eq] at hu
    change _ ≤ (readerView r.connection).unread.length
    rw [hu]
    exact (frameHeaderOf_length _).le
  | stopped hr hu => exact absurd hr hhealthy.reading

/-- A payload that is awaited is that of a command still to come. -/
theorem pushed_lt {polled : List OutboundMessage} {r : SessionRun} {taken left : List Command}
    {lost : List UInt8} {frames : List QueuedFrame}
    (hinv : LockstepInv (workload.map WorkloadCommand.command) s polled r taken left lost frames)
    {header : WireHeader} (hr : r.connection.reading = some (.payload header)) :
    r.connection.pushed.length < workload.length := by
  have htaken := congrArg List.length hinv.aligned.pushed
  have hsplit := congrArg List.length hinv.split
  rw [List.length_map] at htaken hsplit
  change r.connection.pushed.length = _ at htaken
  cases hinv.aligned.reads with
  | header hr' => simp [readerView, hr] at hr'
  | payload command rest hleft =>
    rw [hleft, List.length_append, List.length_cons] at hsplit
    omega
  | stopped hr' => simp [readerView, hr] at hr'

theorem sessionLeft_read {r : SessionRun} {tryPush : Nat → Bool}
    (h : ReadsOn r.connection (onRead tryPush r.connection false))
    (hafter : ∀ header, (r.read tryPush false).connection.reading = some (.payload header) →
      (r.read tryPush false).connection.pushed.length < workload.length)
    (hbefore : ∀ header, r.connection.reading = some (.payload header) →
      r.connection.pushed.length < workload.length) :
    sessionLeft workload (r.read tryPush false) + 1 < sessionLeft workload r := by
  have hqueue : ∀ (hw : writerView (onRead tryPush r.connection false) = writerView r.connection),
      (r.read tryPush false).connection.writeQueue = r.connection.writeQueue ∧
        (r.read tryPush false).queued = r.queued := by
    intro hw
    have hsame : (onRead tryPush r.connection false).writeQueue = r.connection.writeQueue :=
      congrArg WriterView.writeQueue hw
    refine ⟨hsame, ?_⟩
    rw [SessionRun.read, SessionRun.react, hsame, List.drop_length, List.append_nil]
  cases h with
  | header header hr hr' hp hw hg =>
    have hlt := hafter header hr'
    have hpushed : (r.read tryPush false).connection.pushed = r.connection.pushed := hp
    have hreading : (r.read tryPush false).connection.reading = some (.payload header) := hr'
    rw [hpushed] at hlt
    simp only [sessionLeft, (hqueue hw).1, (hqueue hw).2, hpushed, hreading, hr, if_true, reduceCtorEq,
      Option.some.injEq, if_false]
    omega
  | payload header message hr hr' hp hw hg =>
    have hlt := hbefore header hr
    have hpushed : (r.read tryPush false).connection.pushed = r.connection.pushed ++ [message] := hp
    have hreading : (r.read tryPush false).connection.reading = some .header := hr'
    simp only [sessionLeft, (hqueue hw).1, (hqueue hw).2, hpushed, hreading, hr, if_true, reduceCtorEq,
      Option.some.injEq, if_false, List.length_append, List.length_singleton]
    omega

theorem read_works (h : Running workload s) : Works workload s .read := by
  obtain ⟨polled, r, taken, left, lost, frames, hinv⟩ := h.inv
  have hhealthy := h.healthy r (by simp [hinv.sessions])
  cases hready : readable r with
  | false =>
    refine works_of_same ?_ fun hneeded => ?_
    · simp [Turn.event, step, server, h.running, hinv.sessions, hready]
    · rw [readable_of_needed hinv h.running hhealthy hneeded.symm] at hready
      cases hready
  | true =>
    left
    have hstep : s.step workload Turn.read.event =
        { s with exchange := s.exchange.step (.read 0 false) } := by
      simp [Turn.event, step, server, hinv.sessions, hready]
    obtain ⟨polled', r', taken', left', lost', frames', hinv'⟩ :=
      step_inv hinv Turn.read.event
    rw [hstep] at hinv' ⊢
    have hread : s.exchange.step (.read 0 false) =
        { s.exchange with
          sessions := [r.read s.exchange.hasRoom false]
          engine := (s.exchange.step (.read 0 false)).engine } := by
      simp only [Exchange.step, Exchange.read, hinv.sessions, List.getElem?_cons_zero,
        List.set_cons_zero]
    obtain rfl : r' = r.read s.exchange.hasRoom false := by
      have hone := hinv'.sessions
      rw [hread] at hone
      exact (List.singleton_inj.mp hone).symm
    obtain ⟨inbound, hengine⟩ : ∃ inbound, (s.exchange.step (.read 0 false)).engine =
        { s.exchange.engine with service := { s.exchange.engine.service with inbound := inbound } } := by
      simp only [Exchange.step, Exchange.read, hinv.sessions, List.getElem?_cons_zero]
      exact Exchange.receive_waits _ _
    have hreads : ReadsOn r.connection (onRead s.exchange.hasRoom r.connection false) :=
      onRead_readsOn hready (hinv'.aligned.errors.trans hinv.aligned.errors.symm)
    have hcall : (s.exchange.step (.read 0 false)).call = s.exchange.call := by rw [hread]
    have hunpushed : { s with exchange := s.exchange.step (.read 0 false) }.unpushed workload =
        s.unpushed workload := by
      simp only [unpushed, hengine, Exchange.pending, hcall]
    have houtbound := congrArg Exchange.outbound hread
    have hleft := Exchange.callLeft_of_call hcall
    refine stepsLeft_of_session hinv.sessions hinv'.sessions (LockstepInv.received_le hinv)
      (List.prefix_append _ _) (by rw [hengine]) hunpushed ?_
    have hless := sessionLeft_read hreads (fun header hr => pushed_lt hinv' hr)
      (fun header hr => pushed_lt hinv hr)
    rw [houtbound]
    dsimp only
    omega

/-! ## The end -/

theorem works (h : Running workload s) (hunfinished : ¬ Finished workload s) (turn : Turn) :
    Works workload s turn := by
  cases turn with
  | send => exact send_works h hunfinished
  | receive => exact receive_works h
  | deliver count => exact deliver_works count
  | read => exact read_works h
  | process => exact process_works h
  | push => exact push_works
  | poll => exact poll_works h
  | write => exact write_works h

/-- No turn stops the client, or takes a response back. -/
theorem step_client (workload : List WorkloadCommand) (s : Lockstep) (turn : Turn) :
    (s.step workload turn.event).stopped = s.stopped ∧
      s.commands ≤ (s.step workload turn.event).commands := by
  cases turn with
  | send =>
    simp only [Turn.event, step, send, next]
    split_ifs
    · exact ⟨rfl, le_rfl⟩
    · cases workload[s.commands]? with
      | none => exact ⟨rfl, le_rfl⟩
      | some item =>
        simp only [Option.map_some, encodeCommand_eq]
        exact ⟨trivial, le_rfl⟩
  | receive =>
    simp only [Turn.event, step, receive]
    split_ifs
    · split
      · exact ⟨rfl, le_rfl⟩
      · split_ifs
        · exact ⟨rfl, Nat.le_succ _⟩
        · exact ⟨rfl, le_rfl⟩
    · exact ⟨rfl, le_rfl⟩
  | read =>
    simp only [Turn.event, step, server]
    split_ifs <;> exact ⟨rfl, le_rfl⟩
  | deliver | process | push | poll | write => exact ⟨rfl, le_rfl⟩

theorem healthy_read (h : Running workload s) :
    ∀ r ∈ (s.step workload Turn.read.event).exchange.sessions, Healthy r.connection := by
  obtain ⟨polled, r, taken, left, lost, frames, hinv⟩ := h.inv
  have hhealthy := h.healthy r (by simp [hinv.sessions])
  cases hready : readable r with
  | false =>
    have hsame : s.step workload Turn.read.event = s := by
      simp [Turn.event, step, server, h.running, hinv.sessions, hready]
    rw [hsame]
    exact h.healthy
  | true =>
    obtain ⟨polled', r', taken', left', lost', frames', hinv'⟩ := step_inv hinv Turn.read.event
    have hone : (s.step workload Turn.read.event).exchange.sessions =
        [r.read s.exchange.hasRoom false] := by
      simp [Turn.event, step, server, hinv.sessions, hready, Exchange.step, Exchange.read]
    obtain rfl : r.read s.exchange.hasRoom false = r' :=
      List.singleton_inj.mp (hone.symm.trans hinv'.sessions)
    have hreads : ReadsOn r.connection (onRead s.exchange.hasRoom r.connection false) :=
      onRead_readsOn hready (hinv'.aligned.errors.trans hinv.aligned.errors.symm)
    intro r' hr'
    rw [hone, List.mem_singleton] at hr'
    rw [hr']
    have hwrites := onRead_writes hhealthy.writes s.exchange.hasRoom false
    have hkeeps : writerView (onRead s.exchange.hasRoom r.connection false) =
          writerView r.connection ∧
        (onRead s.exchange.hasRoom r.connection false).registered = r.connection.registered ∧
        (onRead s.exchange.hasRoom r.connection false).reading ≠ none := by
      cases hreads with
      | header header hr hr' hp hw hg => exact ⟨hw, hg, by rw [hr']; simp⟩
      | payload header message hr hr' hp hw hg => exact ⟨hw, hg, by rw [hr']; simp⟩
    exact ⟨hkeeps.2.1.trans hhealthy.registered,
      (congrArg WriterView.closeAfterWrite hkeeps.1).trans hhealthy.closeAfterWrite, hkeeps.2.2,
      hwrites⟩

/-- A turn keeps the session as it should be. -/
theorem healthy_step (h : Running workload s) (turn : Turn) :
    ∀ r ∈ (s.step workload turn.event).exchange.sessions, Healthy r.connection := by
  cases turn with
  | send =>
    have hsame : (s.step workload Turn.send.event).exchange = s.exchange := by
      simp only [Turn.event, step, send]
      split_ifs
      · rfl
      · split <;> rfl
    rw [hsame]
    exact h.healthy
  | receive =>
    have hsame : (s.step workload Turn.receive.event).exchange = s.exchange := by
      simp only [Turn.event, step, receive]
      split_ifs
      · split
        · rfl
        · split_ifs <;> rfl
      · rfl
    rw [hsame]
    exact h.healthy
  | deliver count =>
    intro r' hr'
    obtain ⟨r, hr, rfl⟩ := List.mem_map.mp hr'
    obtain ⟨hregistered, hclose, hreading, hwrites⟩ := h.healthy r hr
    exact ⟨hregistered, hclose, hreading, hwrites⟩
  | read => exact healthy_read h
  | process =>
    intro r hr
    exact h.healthy r (s.exchange.process_sessions ▸ hr)
  | push =>
    intro r hr
    exact h.healthy r (s.exchange.push_sessions ▸ hr)
  | poll =>
    intro r' hr'
    change r' ∈ s.exchange.poll.sessions at hr'
    unfold Exchange.poll at hr'
    split at hr'
    · exact h.healthy r' hr'
    · obtain ⟨r, hr, rfl⟩ := List.mem_map.mp hr'
      exact (h.healthy r hr).onPoll _
  | write =>
    obtain ⟨polled, r, taken, left, lost, frames, hinv⟩ := h.inv
    have hhealthy := h.healthy r (by simp [hinv.sessions])
    intro r' hr'
    change r' ∈ s.exchange.sessions.modify 0 (SessionRun.write false) at hr'
    rw [hinv.sessions, List.modify_zero_cons, List.mem_singleton] at hr'
    rw [hr', SessionRun.write]
    split_ifs
    · exact hhealthy.onWrite
    · exact hhealthy

theorem Running.step (h : Running workload s) (turn : Turn) :
    Running workload (s.step workload turn.event) := by
  obtain ⟨polled, r, taken, left, lost, frames, hinv⟩ := h.inv
  exact ⟨step_inv hinv turn.event, (step_client workload s turn).1.trans h.running, healthy_step h turn⟩

theorem progress (workload : List WorkloadCommand) :
    Transducer.Progress (fun s (turn : Turn) => (step workload s turn.event, ())) Turn.thread
      (Set.range Turn.thread) (Running workload)
      (fun s => Running workload s ∧ Finished workload s) (stepsLeft workload) needed where
  mem s h hunfinished := by
    refine ⟨s.needed, ?_⟩
    unfold needed
    split_ifs <;> rfl
  turn s turn h hunfinished := by
    have hnot : ¬ Finished workload s := fun hfinished => hunfinished ⟨h, hfinished⟩
    exact .inr ⟨h.step turn, works h hnot turn⟩
  stays s turn h := by
    obtain ⟨hrunning, hfinished⟩ := h
    have hafter := hrunning.step turn
    obtain ⟨polled, r, taken, left, lost, frames, hinv⟩ := hafter.inv
    have hsent := hinv.sent
    have hle := (step_client workload s turn).2
    rw [Finished] at hfinished
    rw [sent, List.length_map] at hsent
    refine ⟨hafter, ?_⟩
    rw [Finished]
    dsimp only
    omega

theorem start_running (h : Ordered workload) : Running workload start where
  inv := ⟨_, _, _, _, _, _, start_inv h⟩
  running := rfl
  healthy r hr := by
    rw [List.mem_singleton.mp hr]
    exact ⟨rfl, rfl, by simp [SessionRun.start, TcpSession.start, doReadHeader],
      fun _ hqueue => absurd rfl hqueue⟩

/-- As long as nothing fails, the gateway benchmark ends on every schedule that gives every loop,
handler and direction of the network its turns: the client gets the response to each command of a
workload that was generated with at most a hundred thousand levels. Rounds of turns suffice whose
number is that of the steps left at the start. -/
theorem gateway_benchmark_finishes {config : WorkloadConfig} {random : Nat → UInt64}
    {maxSize : UInt64} (hworkload : makeWorkload config random maxSize = some workload)
    (hlevels : config.bookLevels ≤ 100000) {rounds : List (List Turn)}
    (hfair : ∀ round ∈ rounds,
      Transducer.FairRound Turn.thread (Set.range Turn.thread) round)
    (hrounds : start.stepsLeft workload < rounds.length) :
    let s := run workload (rounds.flatten.map Turn.event)
    s.commands = workload.length ∧ s.stopped = false ∧
    s.exchange.engine.processed.map InboundMessage.command =
      workload.map WorkloadCommand.command ∧
    ∀ r ∈ s.exchange.sessions, r.connection.registered = true := by
  have hturns : run workload (rounds.flatten.map Turn.event) =
      Transducer.run (fun s (turn : Turn) => (step workload s turn.event, ())) start rounds.flatten :=
    List.foldl_map ..
  rw [hturns]
  obtain ⟨hrunning, hfinished⟩ := (progress workload).run_fair
    (start_running (ordered_of_makeWorkload hworkload hlevels)) hfair hrounds
  obtain ⟨polled, r, taken, left, lost, frames, hinv⟩ := hrunning.inv
  have hcounts := hinv.counts
  rw [hfinished] at hcounts
  refine ⟨hfinished, hrunning.running, ?_, fun r hr => (hrunning.healthy r hr).registered⟩
  rw [hinv.processed_commands, List.take_of_length_le]
  rw [List.length_map]
  exact hcounts.1

def allTurns (rounds : Nat) : List (List Turn) :=
  List.replicate rounds [.write, .poll, .push, .process, .read, .deliver 7, .receive, .send]

theorem orderAndCancel_finishes :
    (run orderAndCancel ((allTurns 200).flatten.map Turn.event)).commands = 2 := by
  have hfair : ∀ round ∈ allTurns 200,
      Transducer.FairRound Turn.thread (Set.range Turn.thread) round := by
    rintro round hround _ ⟨turn, rfl⟩
    rw [List.eq_of_mem_replicate hround]
    cases turn with
    | deliver count => exact ⟨.deliver 7, by decide, rfl⟩
    | _ => decide
  have hrounds : start.stepsLeft orderAndCancel < (allTurns 200).length := by
    rw [allTurns, List.length_replicate]
    decide +kernel
  exact (gateway_benchmark_finishes orderAndCancel_made (by decide) hfair hrounds).1

end Lockstep

end LowLatencyExchange.Benchmark
