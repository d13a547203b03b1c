import LowLatencyExchange.Gateway.Session
import Mathlib.Tactic

/-!
# What a session writes

A fatal protocol error is meant to be the last frame on its socket. The session closes when
its write queue runs empty with `close_after_write_` set, so this holds exactly as long as
`poll_outbound` queues no frame behind the error while the error waits to be written.
-/
namespace LowLatencyExchange.TcpSession

open Protocol

/-- What the write path works on. -/
structure WriterView where
  isOpen : Bool
  writeQueue : List QueuedFrame
  writing : Bool
  closeAfterWrite : Bool
  errors : List ProtocolErrorEvent
  written : List QueuedFrame

def writerView (c : Connection) : WriterView :=
  ⟨c.isOpen, c.writeQueue, c.writing, c.closeAfterWrite, c.errors, c.written⟩

/-- A read handler leaves the write path alone, or sends one protocol error and asks for no
further bytes. -/
inductive ReadEffect (c : Connection) : Connection → Prop
  | quiet (c' : Connection) (hw : writerView c' = writerView c)
      (hr : c.reading = none → c'.reading = none) : ReadEffect c c'
  | error (c' : Connection) (code : ErrorCode) (type : UInt8) (hw : writerView c' = writerView c)
      (hr : c.reading ≠ none) (hn : c'.reading = none) :
      ReadEffect c (sendProtocolError c' code type)

theorem onReadHeader_effect {c : Connection} (hr : c.reading ≠ none) (error : Bool) :
    ReadEffect c (onReadHeader { c with reading := none } error) := by
  unfold onReadHeader
  cases hdel : delivered { c with reading := none } kHeaderSize error with
  | none => exact .quiet _ rfl (fun h => absurd h hr)
  | some bytes =>
    obtain ⟨header, hd⟩ := decodeHeader_isSome (delivered_eq_some hdel).1
    simp only [hd]
    cases hv : validateHeader header with
    | some code => exact .error _ code header.type rfl hr rfl
    | none => exact .quiet _ rfl (fun h => absurd h hr)

theorem onReadPayload_effect (tryPush : Nat → Bool) {c : Connection} (hr : c.reading ≠ none)
    (header : WireHeader) (error : Bool) :
    ReadEffect c (onReadPayload tryPush { c with reading := none } header error) := by
  unfold onReadPayload
  cases hdel : delivered { c with reading := none } header.payloadLength.toNat error with
  | none => exact .quiet _ rfl (fun h => absurd h hr)
  | some payload =>
    dsimp only
    cases hd : decodePayload header.type payload with
    | error code => exact .error _ code header.type rfl hr rfl
    | ok command =>
      simp only [enqueueCommand]
      by_cases hs : command.sequence.value ≤ c.lastSequence
      · simp only [if_pos hs, Bool.false_eq_true, if_false]
        exact .error _ .sequenceOutOfOrder header.type rfl hr rfl
      · by_cases hp : tryPush c.pushed.length = false
        · simp only [if_neg hs, if_pos hp, Bool.false_eq_true, if_false]
          exact .error _ .sessionOverloaded header.type rfl hr rfl
        · simp only [if_neg hs, if_neg hp, if_true]
          exact .quiet _ rfl (fun h => absurd h hr)

theorem onRead_effect (tryPush : Nat → Bool) (c : Connection) (error : Bool) :
    ReadEffect c (onRead tryPush c error) := by
  unfold onRead
  cases hr : c.reading with
  | none => exact .quiet c rfl (fun h => h)
  | some reading =>
    have hne : c.reading ≠ none := by simp [hr]
    cases reading with
    | header => exact onReadHeader_effect hne error
    | payload header => exact onReadPayload_effect tryPush hne header error

/-! ## The invariant of the write path -/

def errorFrame (e : ProtocolErrorEvent) : QueuedFrame :=
  ⟨makeErrorFrame e.errorCode e.offendingType, true⟩

structure WriterInv (c : Connection) : Prop where
  /-- An error ends the reading. -/
  reading : c.reading ≠ none → c.errors = []
  /-- Without an error the session is open, and is not to be closed. -/
  sound : c.errors = [] → c.isOpen = true ∧ c.closeAfterWrite = false
  /-- An error marks the session until it is closed. -/
  marked : c.errors ≠ [] → c.isOpen = true → c.closeAfterWrite = true
  /-- The fatal frames are those of the errors, one for each. -/
  sent : (queued c).filter QueuedFrame.fatal = c.errors.map errorFrame

theorem writerInv_start (sessionId : UInt64) (stream : List UInt8) :
    WriterInv (start sessionId stream) where
  reading _ := rfl
  sound _ := ⟨rfl, rfl⟩
  marked h := absurd rfl h
  sent := rfl

/-- Without an error no frame is fatal. -/
theorem WriterInv.not_fatal {c : Connection} (inv : WriterInv c) (h : c.errors = []) :
    ∀ f ∈ queued c, f.fatal = false := by
  have hsent := inv.sent
  rw [h, List.map_nil, List.filter_eq_nil_iff] at hsent
  exact fun f hf => Bool.eq_false_iff.mpr (hsent f hf)

theorem queued_of_view {c c' : Connection} (hw : writerView c' = writerView c) :
    queued c' = queued c :=
  congrArg₂ (· ++ ·) (congrArg WriterView.written hw) (congrArg WriterView.writeQueue hw)

/-- The invariant reads nothing of the connection but the write path, and whether a read is
outstanding. -/
theorem WriterInv.of_view {c c' : Connection} (inv : WriterInv c)
    (hw : writerView c' = writerView c) (hr : c.reading = none → c'.reading = none) :
    WriterInv c' := by
  have hqueued := queued_of_view hw
  simp only [writerView, WriterView.mk.injEq] at hw
  obtain ⟨hopen, -, -, hclose, herrors, -⟩ := hw
  refine ⟨fun h => ?_, fun h => ?_, fun h => ?_, ?_⟩
  · rw [herrors]
    exact inv.reading fun hn => h (hr hn)
  · rw [hopen, hclose]
    exact inv.sound (herrors ▸ h)
  · rw [hopen, hclose]
    exact inv.marked (herrors ▸ h)
  · rw [hqueued, herrors]
    exact inv.sent

/-- Sending an error on an open session puts its frame at the end of the queue. -/
theorem queued_sendProtocolError {c : Connection} (ho : c.isOpen = true) (code : ErrorCode)
    (type : UInt8) :
    queued (sendProtocolError c code type) = queued c ++ [⟨makeErrorFrame code type, true⟩] := by
  rw [sendProtocolError_eq]
  have hbytes := makeErrorFrame_ne_nil code type
  generalize makeErrorFrame code type = bytes at hbytes
  exact queued_sendRawFrame _ hbytes ho

section Fields

variable (c : Connection) (frame : QueuedFrame)

@[simp] theorem sendRawFrame_isOpen : (sendRawFrame c frame).isOpen = c.isOpen := by
  unfold sendRawFrame
  dsimp only
  split_ifs <;> rfl

@[simp] theorem sendRawFrame_closeAfterWrite :
    (sendRawFrame c frame).closeAfterWrite = c.closeAfterWrite := by
  unfold sendRawFrame
  dsimp only
  split_ifs <;> rfl

@[simp] theorem sendRawFrame_written : (sendRawFrame c frame).written = c.written := by
  unfold sendRawFrame
  dsimp only
  split_ifs <;> rfl

theorem sendRawFrame_errors : (sendRawFrame c frame).errors = c.errors :=
  congrArg ReaderView.errors (readerView_sendRawFrame c frame)

theorem sendRawFrame_reading : (sendRawFrame c frame).reading = c.reading :=
  congrArg ReaderView.reading (readerView_sendRawFrame c frame)

end Fields

/-- Sending an error, in a session that has sent none. -/
theorem WriterInv.sendProtocolError {c : Connection} (inv : WriterInv c) (he : c.errors = [])
    (hr : c.reading = none) (code : ErrorCode) (type : UInt8) :
    WriterInv (sendProtocolError c code type) := by
  have hqueued := queued_sendProtocolError (inv.sound he).1 code type
  have herrors : (TcpSession.sendProtocolError c code type).errors = [⟨code, type⟩] := by
    rw [sendProtocolError_eq, sendRawFrame_errors, he]
    rfl
  have hreading : (TcpSession.sendProtocolError c code type).reading = none := by
    rw [sendProtocolError_eq, sendRawFrame_reading]
    exact hr
  refine ⟨fun h => absurd hreading h, fun h => ?_, fun _ _ => ?_, ?_⟩
  · simp [herrors] at h
  · rw [sendProtocolError_eq, sendRawFrame_closeAfterWrite]
  · rw [hqueued, List.filter_append, inv.sent, he, herrors]
    rfl

theorem WriterInv.sendRawFrame {c : Connection} (inv : WriterInv c) {frame : QueuedFrame}
    (hf : frame.fatal = false) : WriterInv (sendRawFrame c frame) := by
  by_cases hclosed : frame.bytes = [] ∨ c.isOpen = false
  · rwa [sendRawFrame_of_closed c hclosed]
  · obtain ⟨hb, ho⟩ := not_or.mp hclosed
    have hqueued := queued_sendRawFrame c hb (by simpa using ho)
    refine ⟨fun h => ?_, fun h => ?_, fun h => ?_, ?_⟩
    · rw [sendRawFrame_errors]
      exact inv.reading (by rwa [sendRawFrame_reading] at h)
    · rw [sendRawFrame_errors] at h
      rw [sendRawFrame_isOpen, sendRawFrame_closeAfterWrite]
      exact inv.sound h
    · rw [sendRawFrame_isOpen, sendRawFrame_closeAfterWrite]
      exact inv.marked (by rwa [sendRawFrame_errors] at h)
    · rw [hqueued, List.filter_append, inv.sent, sendRawFrame_errors,
        List.filter_singleton, hf]
      exact List.append_nil _

theorem WriterInv.onWrite {c : Connection} (inv : WriterInv c) (error : Bool) :
    WriterInv (onWrite c error) := by
  have hqueued := queued_onWrite c error
  have hview := readerView_onWrite c error
  have herrors : (TcpSession.onWrite c error).errors = c.errors := congrArg ReaderView.errors hview
  have hreading : (TcpSession.onWrite c error).reading = c.reading :=
    congrArg ReaderView.reading hview
  refine ⟨fun h => ?_, fun h => ?_, fun h => ?_, ?_⟩
  · rw [herrors]
    exact inv.reading (hreading ▸ h)
  · obtain ⟨hopen, hclose⟩ := inv.sound (herrors ▸ h)
    refine ⟨?_, ?_⟩
    · unfold TcpSession.onWrite
      dsimp only
      split_ifs <;> simp_all [unregister, doWrite]
    · unfold TcpSession.onWrite
      dsimp only
      split_ifs <;> simp_all [unregister, doWrite]
  · have hmarked := inv.marked (herrors ▸ h)
    unfold TcpSession.onWrite
    dsimp only
    split_ifs <;> simp_all [unregister, doWrite, close]
  · rw [hqueued, herrors]
    exact inv.sent

theorem WriterInv.step {c : Connection} (inv : WriterInv c) (tryPush : Nat → Bool)
    (event : SessionEvent) : WriterInv (step tryPush c event) := by
  cases event with
  | read error =>
    have heffect := onRead_effect tryPush c error
    rw [TcpSession.step]
    generalize onRead tryPush c error = c' at heffect
    cases heffect with
    | quiet c' hw hr => exact inv.of_view hw hr
    | error c' code type hw hr hn =>
      have herrors : c'.errors = [] :=
        (congrArg WriterView.errors hw).trans (inv.reading hr)
      exact (inv.of_view hw (fun _ => hn)).sendProtocolError herrors hn code type
  | poll message =>
    rw [TcpSession.step, onPoll]
    split_ifs
    · exact inv.sendRawFrame rfl
    · exact inv
  | write error =>
    rw [TcpSession.step]
    split_ifs
    · exact inv.onWrite error
    · exact inv

theorem run_writerInv (tryPush : Nat → Bool) (sessionId : UInt64) (stream : List UInt8)
    (events : List SessionEvent) : WriterInv (run tryPush sessionId stream events) :=
  Transducer.run_invariant WriterInv (fun _ event inv => inv.step tryPush event)
    (writerInv_start sessionId stream) events

/-- The frames that are not fatal were polled. -/
theorem run_polled (tryPush : Nat → Bool) (sessionId : UInt64) (stream : List UInt8)
    (events : List SessionEvent) :
    ∀ f ∈ queued (run tryPush sessionId stream events), f.fatal = false →
      ∃ message, SessionEvent.poll message ∈ events ∧ f.bytes = serializeOutbound message := by
  induction events using List.reverseRecOn with
  | nil => exact fun f hf => absurd hf List.not_mem_nil
  | append_singleton events event ih =>
    have hrun : run tryPush sessionId stream (events ++ [event]) =
        step tryPush (run tryPush sessionId stream events) event := Transducer.run_concat _ _ _ _
    have inv := run_writerInv tryPush sessionId stream events
    rw [hrun]
    generalize run tryPush sessionId stream events = c at ih inv
    have hbefore : ∀ f ∈ queued c, f.fatal = false → ∃ message,
        SessionEvent.poll message ∈ events ++ [event] ∧ f.bytes = serializeOutbound message :=
      fun f hf hpolled => (ih f hf hpolled).imp fun _ h => ⟨List.mem_append_left _ h.1, h.2⟩
    cases event with
    | read error =>
      have heffect := onRead_effect tryPush c error
      rw [step]
      generalize onRead tryPush c error = c' at heffect
      cases heffect with
      | quiet c' hw hr =>
        rw [queued_of_view hw]
        exact hbefore
      | error c' code type hw hr hn =>
        have hsound := (inv.of_view hw fun _ => hn).sound
          ((congrArg WriterView.errors hw).trans (inv.reading hr))
        rw [queued_sendProtocolError hsound.1, queued_of_view hw]
        intro f hf hpolled
        rcases List.mem_append.mp hf with hf | hf
        · exact hbefore f hf hpolled
        · rw [List.mem_singleton.mp hf] at hpolled
          cases hpolled
    | poll message =>
      rw [step, onPoll]
      split_ifs
      · by_cases hclosed : serializeOutbound message = [] ∨ c.isOpen = false
        · rwa [sendRawFrame_of_closed c hclosed]
        · obtain ⟨hbytes, hopen⟩ := not_or.mp hclosed
          rw [queued_sendRawFrame c hbytes (by simpa using hopen)]
          intro f hf hpolled
          rcases List.mem_append.mp hf with hf | hf
          · exact hbefore f hf hpolled
          · exact ⟨message, by simp, by rw [List.mem_singleton.mp hf]⟩
      · exact hbefore
    | write error =>
      rw [step]
      split_ifs
      · rwa [queued_onWrite]
      · exact hbefore

/-! ## The last frame -/

/-- No frame is behind a fatal one, and once a fatal frame is written the session is closed. -/
structure FatalLast (c : Connection) : Prop where
  last : ∀ front f back, queued c = front ++ f :: back → f.fatal = true → back = []
  closed : ∀ f ∈ c.written, f.fatal = true → c.isOpen = false

/-- `poll_outbound` has no frame for a session that waits for an error frame to be written. -/
def Undisturbed (c : Connection) (event : SessionEvent) : Prop :=
  ∀ message, event = .poll message → c.closeAfterWrite = true → c.isOpen = true →
    c.registered = true → (message.sessionId = 0 ∨ message.sessionId = c.sessionId) →
    serializeOutbound message = []

theorem FatalLast.of_view {c c' : Connection} (h : FatalLast c)
    (hw : writerView c' = writerView c) : FatalLast c' := by
  have hqueued := queued_of_view hw
  simp only [writerView, WriterView.mk.injEq] at hw
  obtain ⟨hopen, -, -, -, -, hwritten⟩ := hw
  refine ⟨fun front f back hs => h.last front f back (hqueued ▸ hs), fun f hf => ?_⟩
  · rw [hopen]
    exact h.closed f (hwritten ▸ hf)

/-- A frame at the end of a queue without fatal frames is the only one that can be fatal. -/
theorem last_concat {frames : List QueuedFrame} (h : ∀ f ∈ frames, f.fatal = false)
    (frame : QueuedFrame) {front back : List QueuedFrame} {f : QueuedFrame}
    (hs : frames ++ [frame] = front ++ f :: back) (hf : f.fatal = true) : back = [] := by
  rcases List.eq_nil_or_concat back with rfl | ⟨back, last, rfl⟩
  · rfl
  · exfalso
    have hs' : frames ++ [frame] = (front ++ f :: back) ++ [last] := by simpa using hs
    obtain ⟨hframes, _⟩ := List.append_inj' hs' rfl
    have hm : f ∈ frames := hframes ▸ by simp
    simp [h f hm] at hf

theorem FatalLast.sendProtocolError {c : Connection} (inv : WriterInv c) (he : c.errors = [])
    (code : ErrorCode) (type : UInt8) : FatalLast (sendProtocolError c code type) := by
  have hopen := (inv.sound he).1
  have hnone := inv.not_fatal he
  refine ⟨fun front f back hs hf => ?_, fun f hm hf => ?_⟩
  · rw [queued_sendProtocolError hopen] at hs
    exact last_concat hnone _ hs hf
  · rw [sendProtocolError_eq, sendRawFrame_written] at hm
    simp [hnone f (List.mem_append_left _ hm)] at hf

/-- A completed write of the fatal frame empties the queue and closes the session. -/
theorem FatalLast.onWrite {c : Connection} (h : FatalLast c) (inv : WriterInv c) (error : Bool) :
    FatalLast (onWrite c error) := by
  refine ⟨fun front f back hs => h.last front f back (queued_onWrite c error ▸ hs), ?_⟩
  intro f hm hf
  have hclosed : ∀ f ∈ c.written, f.fatal = true → (TcpSession.onWrite c error).isOpen = false := by
    intro f hf hfatal
    have := h.closed f hf hfatal
    unfold TcpSession.onWrite
    dsimp only
    split_ifs <;> simp_all [unregister, doWrite, close]
  cases error with
  | true => exact hclosed f hm hf
  | false =>
    cases hq : c.writeQueue with
    | nil =>
      refine hclosed f ?_ hf
      unfold TcpSession.onWrite at hm
      dsimp only at hm
      split_ifs at hm <;> simpa [unregister, doWrite, close, hq] using hm
    | cons g tail =>
      have hwritten : (TcpSession.onWrite c false).written = c.written ++ [g] := by
        simp only [TcpSession.onWrite, Bool.false_eq_true, if_false, hq]
        split_ifs <;> rfl
      rw [hwritten] at hm
      rcases List.mem_append.mp hm with hm | hm
      · exact hclosed f hm hf
      · obtain rfl := List.mem_singleton.mp hm
        have hqueued : queued c = c.written ++ f :: tail := by rw [queued, hq]
        have htail : tail = [] := h.last _ _ _ hqueued hf
        by_cases hopen : c.isOpen = true
        · have herrors : c.errors ≠ [] := by
            intro hnil
            have := inv.not_fatal hnil f (hqueued ▸ by simp)
            simp [this] at hf
          have hmark := inv.marked herrors hopen
          simp [TcpSession.onWrite, hq, htail, hmark, unregister, close]
        · unfold TcpSession.onWrite
          dsimp only
          split_ifs <;> simp_all [unregister, close]

/-- A poll keeps the error frame last exactly when it is not disturbing. -/
theorem fatalLast_onPoll_iff {c : Connection} (inv : WriterInv c) (h : FatalLast c)
    (message : OutboundMessage) :
    FatalLast (onPoll c message) ↔ Undisturbed c (.poll message) := by
  have hguard : Undisturbed c (.poll message) ↔ (c.closeAfterWrite = true → c.isOpen = true →
      c.registered = true → (message.sessionId = 0 ∨ message.sessionId = c.sessionId) →
      serializeOutbound message = []) :=
    ⟨fun hu => hu message rfl, fun hu m hm => by cases hm; exact hu⟩
  rw [hguard, onPoll]
  by_cases hto : c.registered = true ∧ (message.sessionId = 0 ∨ message.sessionId = c.sessionId)
  · rw [if_pos hto]
    by_cases hnone : serializeOutbound message = [] ∨ c.isOpen = false
    · rw [sendRawFrame_of_closed c hnone]
      refine iff_of_true h fun _ hopen _ _ => hnone.resolve_right (by simp [hopen])
    · obtain ⟨hbytes, hopen⟩ := not_or.mp hnone
      have hopen : c.isOpen = true := by simpa using hopen
      have hqueued := @queued_sendRawFrame c ⟨serializeOutbound message, false⟩ hbytes hopen
      by_cases herrors : c.errors = []
      · have hclose := (inv.sound herrors).2
        have hsound := inv.not_fatal herrors
        refine iff_of_true ⟨fun front f back hs hf => ?_, fun f hm hf => ?_⟩ (by simp [hclose])
        · rw [hqueued] at hs
          exact last_concat hsound _ hs hf
        · rw [sendRawFrame_written] at hm
          simp [hsound f (List.mem_append_left _ hm)] at hf
      · refine iff_of_false (fun hlast => ?_) (fun hu => ?_)
        · obtain ⟨e, errors, he⟩ := List.exists_cons_of_ne_nil herrors
          have hsent : errorFrame e ∈ queued c := by
            have hfatal : errorFrame e ∈ (queued c).filter QueuedFrame.fatal := by
              rw [inv.sent, he]
              exact List.mem_cons_self
            exact List.mem_of_mem_filter hfatal
          obtain ⟨front, back, hs⟩ := List.append_of_mem hsent
          have hsplit : queued (sendRawFrame c ⟨serializeOutbound message, false⟩) =
              front ++ errorFrame e ::
                (back ++ [⟨serializeOutbound message, false⟩]) := by
            rw [hqueued, hs, List.append_assoc, List.cons_append]
          simpa using hlast.last _ _ _ hsplit rfl
        · exact hbytes (hu (inv.marked herrors hopen) hopen hto.1 hto.2)
  · rw [if_neg hto]
    exact iff_of_true h fun _ _ hreg haddr => absurd ⟨hreg, haddr⟩ hto

theorem fatalLast_step_iff {c : Connection} (inv : WriterInv c) (h : FatalLast c)
    (tryPush : Nat → Bool) (event : SessionEvent) :
    FatalLast (step tryPush c event) ↔ Undisturbed c event := by
  cases event with
  | read error =>
    refine iff_of_true ?_ (fun _ hm => by cases hm)
    have heffect := onRead_effect tryPush c error
    rw [TcpSession.step]
    generalize onRead tryPush c error = c' at heffect
    cases heffect with
    | quiet c' hw hr => exact h.of_view hw
    | error c' code type hw hr hn =>
      have herrors : c'.errors = [] := (congrArg WriterView.errors hw).trans (inv.reading hr)
      exact FatalLast.sendProtocolError (inv.of_view hw (fun _ => hn)) herrors code type
  | poll message => exact fatalLast_onPoll_iff inv h message
  | write error =>
    refine iff_of_true ?_ (fun _ hm => by cases hm)
    rw [TcpSession.step]
    split_ifs
    · exact h.onWrite inv error
    · exact h

/-- In every state of a run a fatal protocol error is the last frame, and closes the session
when it is written, exactly when no poll of the run was disturbing. -/
theorem fatal_last_iff_undisturbed (tryPush : Nat → Bool) (sessionId : UInt64)
    (stream : List UInt8) (events : List SessionEvent) :
    (∀ before, before <+: events → FatalLast (run tryPush sessionId stream before)) ↔
      ∀ before event, before ++ [event] <+: events →
        Undisturbed (run tryPush sessionId stream before) event := by
  have hstart : FatalLast (start sessionId stream) :=
    ⟨by simp [queued, start, doReadHeader], by simp [start, doReadHeader]⟩
  exact Transducer.forall_prefix_iff WriterInv FatalLast Undisturbed
    (fun _ event inv => inv.step tryPush event)
    (fun _ event inv h => fatalLast_step_iff inv h tryPush event)
    (writerInv_start sessionId stream) hstart events

/-- A new order, and eight zero bytes where the next header should be. -/
def orderThenGarbage : List UInt8 :=
  let order : NewOrder :=
    ⟨SequenceNumber.of 1, OrderId.of 1, .buy, .limit, Quantity.of 5, some (Price.of 100)⟩
  LittleEndian.record (headerFields ⟨kMagic, kVersion, MessageType.newOrder.value, 0, 40⟩) ++
    LittleEndian.record (newOrderFields order) ++ List.replicate 8 0

/-- The acknowledgement of that order is polled while the error frame is being written. -/
def acknowledgedLate : List SessionEvent :=
  [.read false, .read false, .read false,
    .poll ⟨1, .orderAccepted, 0,
      .orderAccepted ⟨SequenceNumber.of 1, OrderId.of 1, 5⟩⟩,
    .write false, .write false]

/-- The session sends the error, stays open when it is flushed, and sends the acknowledgement
behind it. -/
theorem acknowledgedLate_written :
    (run (fun _ => true) 1 orderThenGarbage acknowledgedLate).errors =
      [⟨.malformedFrame, 0⟩] ∧
    (run (fun _ => true) 1 orderThenGarbage acknowledgedLate).written.map
      (fun f => (MessageType.fromValue (f.bytes.getD 3 0), f.fatal)) =
        [(some .protocolError, true), (some .orderAccepted, false)] ∧
    (run (fun _ => true) 1 orderThenGarbage (acknowledgedLate.take 5)).isOpen = true ∧
    ¬ ∀ before, before <+: acknowledgedLate →
      FatalLast (run (fun _ => true) 1 orderThenGarbage before) := by
  have hopen : (run (fun _ => true) 1 orderThenGarbage (acknowledgedLate.take 5)).isOpen = true := by
    decide +kernel
  have hfatal : ∃ f ∈ (run (fun _ => true) 1 orderThenGarbage (acknowledgedLate.take 5)).written,
      f.fatal = true := by decide +kernel
  refine ⟨by decide +kernel, by decide +kernel, hopen, fun h => ?_⟩
  obtain ⟨f, hf, hfatal⟩ := hfatal
  have hclosed := (h (acknowledgedLate.take 5) (List.take_prefix 5 _)).closed f hf hfatal
  rw [hopen] at hclosed
  cases hclosed

end LowLatencyExchange.TcpSession
