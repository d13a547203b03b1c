import LowLatencyExchange.Gateway.Reading
import Mathlib.Tactic

/-!
# The writes of a session

A session with the frames that it queued, in order, and the number of its `async_write`s that
are outstanding. Whatever handlers run, in whatever order, there is at most one, and the frames
are written in the order queued.
-/
namespace LowLatencyExchange

open Protocol

structure SessionRun where
  connection : Connection
  /-- The calls of `async_write` that have not completed. -/
  outstanding : Nat
  /-- What `send_raw_frame` has put in the write queue. -/
  queued : List QueuedFrame
  deriving DecidableEq

namespace SessionRun

/-- The writes that a handler starts. Nothing but `do_write` sets the flag, and no handler calls
it twice. -/
def writesStarted (handler : Connection → Connection) (c : Connection) : Nat :=
  (handler { c with writing := false }).writing.toNat

def start (sessionId : UInt64) (stream : List UInt8) : SessionRun :=
  ⟨TcpSession.start sessionId stream, 0, []⟩

/-- A handler that may queue frames, and takes none out of the queue. -/
def react (r : SessionRun) (handler : Connection → Connection) : SessionRun where
  connection := handler r.connection
  outstanding := r.outstanding + writesStarted handler r.connection
  queued := r.queued ++ (handler r.connection).writeQueue.drop r.connection.writeQueue.length

def read (tryPush : Nat → Bool) (r : SessionRun) (error : Bool) : SessionRun :=
  r.react fun c => TcpSession.onRead tryPush c error

def poll (message : OutboundMessage) (r : SessionRun) : SessionRun :=
  r.react fun c => TcpSession.onPoll c message

/-- A write completes, if one is outstanding. -/
def write (error : Bool) (r : SessionRun) : SessionRun :=
  if r.connection.writing then
    { connection := TcpSession.onWrite r.connection error
      outstanding := r.outstanding - 1 +
        writesStarted (fun c => TcpSession.onWrite c error) r.connection
      queued := r.queued }
  else r

/-- `sessions_.erase(session_id)`, as far as one session is concerned. -/
def erase (sessionId : UInt64) (r : SessionRun) : SessionRun :=
  if r.connection.sessionId = sessionId then r.react TcpSession.unregister else r

end SessionRun

namespace TcpSession

variable (c : Connection)

/-- A frame for which `send_raw_frame` calls `do_write`. -/
def startsWrite (frame : QueuedFrame) : Bool :=
  frame.bytes ≠ [] ∧ c.isOpen = true ∧ c.writeQueue = []

theorem sendRawFrame_writing (frame : QueuedFrame) :
    (sendRawFrame c frame).writing = (c.writing || startsWrite c frame) := by
  unfold sendRawFrame startsWrite
  by_cases hnone : frame.bytes = [] ∨ c.isOpen = false
  · rw [if_pos hnone]
    rcases hnone with h | h <;> simp [h]
  · obtain ⟨hbytes, hopen⟩ := not_or.mp hnone
    rw [if_neg hnone]
    by_cases hqueue : c.writeQueue = []
    · simp [hqueue, hbytes, hopen, doWrite]
    · simp [hqueue]

theorem sendProtocolError_writing (code : ErrorCode) (type : UInt8) :
    (sendProtocolError c code type).writing =
      (c.writing || startsWrite c ⟨makeErrorFrame code type, true⟩) := by
  rw [sendProtocolError_eq, sendRawFrame_writing]
  rfl

theorem onReadHeader_writing (error : Bool) :
    (onReadHeader c error).writing =
      (c.writing || (onReadHeader { c with writing := false } error).writing) := by
  unfold onReadHeader
  have hsame : delivered { c with writing := false } kHeaderSize error =
      delivered c kHeaderSize error := rfl
  rw [hsame]
  cases hdelivered : delivered c kHeaderSize error with
  | none => simp [unregister]
  | some bytes =>
    obtain ⟨header, hdecoded⟩ := decodeHeader_isSome (delivered_eq_some hdelivered).1
    simp only [hdecoded]
    cases validateHeader header with
    | some code => simp [sendProtocolError_writing, startsWrite]
    | none => simp [doReadPayload]

theorem onReadPayload_writing (tryPush : Nat → Bool) (header : WireHeader) (error : Bool) :
    (onReadPayload tryPush c header error).writing =
      (c.writing || (onReadPayload tryPush { c with writing := false } header error).writing) := by
  unfold onReadPayload
  have hsame : delivered { c with writing := false } header.payloadLength.toNat error =
      delivered c header.payloadLength.toNat error := rfl
  rw [hsame]
  cases delivered c header.payloadLength.toNat error with
  | none => simp [unregister]
  | some payload =>
    dsimp only
    cases decodePayload header.type payload with
    | error code => simp [sendProtocolError_writing, startsWrite]
    | ok command =>
      simp only [enqueueCommand]
      by_cases hsequence : command.sequence.value ≤ c.lastSequence
      · simp [hsequence, sendProtocolError_writing, startsWrite]
      · by_cases hpush : tryPush c.pushed.length = false
        · simp [hsequence, hpush, sendProtocolError_writing, startsWrite]
        · simp [hsequence, hpush, doReadHeader]

/-- Whether a read handler starts a write does not depend on the writes that are outstanding. -/
theorem onRead_writing (tryPush : Nat → Bool) (error : Bool) :
    (onRead tryPush c error).writing =
      (c.writing || (onRead tryPush { c with writing := false } error).writing) := by
  unfold onRead
  dsimp only
  cases c.reading with
  | none => simp
  | some reading =>
    cases reading with
    | header => exact onReadHeader_writing { c with reading := none } error
    | payload header => exact onReadPayload_writing { c with reading := none } tryPush header error

theorem onPoll_writing (message : OutboundMessage) :
    (onPoll c message).writing =
      (c.writing || (onPoll { c with writing := false } message).writing) := by
  unfold onPoll
  dsimp only
  split_ifs
  · rw [sendRawFrame_writing, sendRawFrame_writing]
    rfl
  · simp

/-- What a handler other than that of a write does to the write path: it queues frames, and
starts a write if it finds the queue empty. A session stays open while it is registered. -/
structure Queues (c c' : Connection) (frames : List QueuedFrame) : Prop where
  writeQueue : c'.writeQueue = c.writeQueue ++ frames
  written : c'.written = c.written
  writing : c'.writing = true → c.writing = true ∨ c.writeQueue = [] ∧ frames ≠ []
  registered : c'.registered = true → c.registered = true
  isOpen : c'.isOpen = c.isOpen

theorem Queues.refl : Queues c c [] :=
  ⟨(List.append_nil _).symm, rfl, .inl, id, rfl⟩

variable {c} in
/-- The frames are queued on a connection with the socket and the write queue of `c`. -/
theorem Queues.of_view {c₁ c' : Connection} {frames : List QueuedFrame} (h : Queues c₁ c' frames)
    (hview : writerView c₁ = { writerView c with
      closeAfterWrite := c₁.closeAfterWrite, errors := c₁.errors })
    (hregistered : c'.registered = true → c.registered = true) : Queues c c' frames := by
  simp only [writerView, WriterView.mk.injEq] at hview
  obtain ⟨hopen, hqueue, hwriting, -, -, hwritten⟩ := hview
  exact ⟨hqueue ▸ h.writeQueue, hwritten ▸ h.written, hwriting ▸ hqueue ▸ h.writing, hregistered,
    hopen ▸ h.isOpen⟩

@[simp] theorem sendRawFrame_registered (frame : QueuedFrame) :
    (sendRawFrame c frame).registered = c.registered := by
  unfold sendRawFrame
  dsimp only
  split_ifs <;> rfl

/-- A frame is queued if it has bytes and the session is open. -/
theorem sendRawFrame_queues (frame : QueuedFrame) :
    Queues c (sendRawFrame c frame)
      (if frame.bytes ≠ [] ∧ c.isOpen = true then [frame] else []) := by
  by_cases hsent : frame.bytes ≠ [] ∧ c.isOpen = true
  · have hqueue : (sendRawFrame c frame).writeQueue = c.writeQueue ++ [frame] := by
      have hqueued := queued_sendRawFrame c hsent.1 hsent.2
      rw [queued, queued, sendRawFrame_written, List.append_assoc] at hqueued
      exact List.append_cancel_left hqueued
    rw [if_pos hsent]
    refine ⟨hqueue, by simp, ?_, by simp, by simp⟩
    rw [sendRawFrame_writing, Bool.or_eq_true]
    rintro (h | h)
    · exact .inl h
    · simp only [startsWrite, decide_eq_true_eq] at h
      exact .inr ⟨h.2.2, by simp⟩
  · rw [if_neg hsent, sendRawFrame_of_closed c (by simpa [or_iff_not_imp_left] using hsent)]
    exact .refl c

def IsErrorFrame (frame : QueuedFrame) : Prop :=
  ∃ code type, frame = ⟨makeErrorFrame code type, true⟩

theorem onReadHeader_registered (error : Bool)
    (h : (onReadHeader c error).registered = true) : c.registered = true := by
  unfold onReadHeader at h
  cases hdelivered : delivered c kHeaderSize error with
  | none => simp [hdelivered, unregister] at h
  | some bytes =>
    obtain ⟨header, hdecoded⟩ := decodeHeader_isSome (delivered_eq_some hdelivered).1
    simp only [hdelivered, hdecoded] at h
    cases hvalid : validateHeader header with
    | some code => simpa [hvalid, sendProtocolError_eq] using h
    | none => simpa [hvalid, doReadPayload] using h

theorem onReadPayload_registered (tryPush : Nat → Bool) (header : WireHeader) (error : Bool)
    (h : (onReadPayload tryPush c header error).registered = true) : c.registered = true := by
  unfold onReadPayload at h
  cases hdelivered : delivered c header.payloadLength.toNat error with
  | none => simp [hdelivered, unregister] at h
  | some payload =>
    simp only [hdelivered] at h
    cases hdecoded : decodePayload header.type payload with
    | error code => simpa [hdecoded, sendProtocolError_eq] using h
    | ok command =>
      simp only [hdecoded, enqueueCommand] at h
      split_ifs at h <;> simpa [sendProtocolError_eq, doReadHeader] using h

/-- A read handler does not register a session. -/
theorem onRead_registered (tryPush : Nat → Bool) (error : Bool)
    (h : (onRead tryPush c error).registered = true) : c.registered = true := by
  unfold onRead at h
  cases hreading : c.reading with
  | none => simpa [hreading] using h
  | some reading =>
    rw [hreading] at h
    cases reading with
    | header => exact onReadHeader_registered { c with reading := none } error h
    | payload header =>
      exact onReadPayload_registered { c with reading := none } tryPush header error h

theorem onRead_queues (tryPush : Nat → Bool) (error : Bool) :
    ∃ frames, Queues c (onRead tryPush c error) frames ∧ ∀ f ∈ frames, IsErrorFrame f := by
  have heffect := onRead_effect tryPush c error
  have hregistered := onRead_registered c tryPush error
  generalize onRead tryPush c error = c' at heffect hregistered
  cases heffect with
  | quiet c' hview _ =>
    refine ⟨[], (Queues.refl c').of_view ?_ hregistered, by simp⟩
    rw [← hview]
    rfl
  | error c' code type hview _ _ =>
    rw [sendProtocolError_eq] at hregistered ⊢
    refine ⟨_, (sendRawFrame_queues _ _).of_view ?_ hregistered, ?_⟩
    · rw [← hview]
      rfl
    · intro f hf
      split_ifs at hf
      · exact ⟨code, type, List.mem_singleton.mp hf⟩
      · cases hf

theorem onPoll_queues (message : OutboundMessage) :
    Queues c (onPoll c message)
      (if (c.registered = true ∧ (message.sessionId = 0 ∨ message.sessionId = c.sessionId)) ∧
          serializeOutbound message ≠ [] ∧ c.isOpen = true then
        [⟨serializeOutbound message, false⟩]
      else []) := by
  unfold onPoll
  by_cases haddressed :
      c.registered = true ∧ (message.sessionId = 0 ∨ message.sessionId = c.sessionId)
  · rw [if_pos haddressed]
    simpa only [haddressed, true_and] using sendRawFrame_queues c ⟨serializeOutbound message, false⟩
  · rw [if_neg haddressed, if_neg (fun h => haddressed h.1)]
    exact .refl c

theorem unregister_queues : Queues c (unregister c) [] :=
  ⟨(List.append_nil _).symm, rfl, .inl, nofun, rfl⟩

end TcpSession

/-- The write of the front frame is the only one. -/
structure SendingInv (r : SessionRun) : Prop where
  queued : r.queued = TcpSession.queued r.connection
  outstanding : r.outstanding = r.connection.writing.toNat
  writing : r.connection.writing = true → r.connection.writeQueue ≠ []
  isOpen : r.connection.registered = true → r.connection.isOpen = true

namespace SendingInv

open TcpSession SessionRun

variable {r : SessionRun}

theorem start (sessionId : UInt64) (stream : List UInt8) :
    SendingInv (SessionRun.start sessionId stream) :=
  ⟨rfl, rfl, nofun, fun _ => rfl⟩

theorem react_queued {handler : Connection → Connection} {frames : List QueuedFrame}
    (h : Queues r.connection (handler r.connection) frames) :
    (r.react handler).queued = r.queued ++ frames := by
  simp only [react]
  rw [h.writeQueue, List.drop_left]

theorem react (h : SendingInv r) {handler : Connection → Connection}
    (hqueues : ∀ c, ∃ frames, Queues c (handler c) frames)
    (hwriting : ∀ c, (handler c).writing =
      (c.writing || (handler { c with writing := false }).writing)) :
    SendingInv (r.react handler) := by
  obtain ⟨frames, hframes⟩ := hqueues r.connection
  refine ⟨?_, ?_, fun hnow => ?_, fun hnow => ?_⟩
  · rw [react_queued hframes, h.queued, TcpSession.queued, TcpSession.queued, List.append_assoc]
    exact congrArg₂ (· ++ ·) hframes.written.symm hframes.writeQueue.symm
  · -- a handler that starts a write has found the queue empty
    obtain ⟨_, hcleared⟩ := hqueues { r.connection with writing := false }
    have hafter := hwriting r.connection
    have hstarted : (handler { r.connection with writing := false }).writing = true →
        r.connection.writing = false := by
      intro hstarted
      have hempty := ((hcleared.writing hstarted).resolve_left Bool.false_ne_true).1
      exact Bool.eq_false_iff.mpr fun hw => h.writing hw hempty
    change r.outstanding + writesStarted handler r.connection = (handler r.connection).writing.toNat
    rw [h.outstanding, writesStarted, hafter]
    generalize (handler { r.connection with writing := false }).writing = started at hstarted ⊢
    cases started with
    | false => simp
    | true => simp [hstarted rfl]
  · simp only [SessionRun.react] at hnow ⊢
    rw [hframes.writeQueue]
    rcases hframes.writing hnow with hw | ⟨-, hne⟩
    · exact List.append_ne_nil_of_left_ne_nil (h.writing hw) _
    · exact List.append_ne_nil_of_right_ne_nil _ hne
  · exact hframes.isOpen.trans (h.isOpen (hframes.registered hnow))

theorem read (h : SendingInv r) (tryPush : Nat → Bool) (error : Bool) :
    SendingInv (r.read tryPush error) :=
  h.react (fun c => (onRead_queues c tryPush error).imp fun _ hc => hc.1)
    fun c => onRead_writing c tryPush error

theorem poll (h : SendingInv r) (message : OutboundMessage) : SendingInv (r.poll message) :=
  h.react (fun c => ⟨_, onPoll_queues c message⟩) fun c => onPoll_writing c message

theorem unregister (h : SendingInv r) : SendingInv (r.react TcpSession.unregister) :=
  h.react (fun c => ⟨[], unregister_queues c⟩) fun c => by simp [TcpSession.unregister]

theorem write (h : SendingInv r) (error : Bool) : SendingInv (r.write error) := by
  unfold SessionRun.write
  split_ifs with hwriting
  · have houtstanding := h.outstanding
    rw [hwriting] at houtstanding
    refine ⟨h.queued.trans (queued_onWrite _ error).symm, ?_, ?_, ?_⟩
    · simp only [houtstanding, writesStarted, Bool.toNat_true, Nat.sub_self, Nat.zero_add]
      rfl
    · unfold onWrite
      dsimp only
      split_ifs <;> simp_all [TcpSession.unregister, doWrite, close]
    · have hopen := h.isOpen
      unfold onWrite
      dsimp only
      split_ifs <;> simp_all [TcpSession.unregister, doWrite, close]
  · exact h

end SendingInv

end LowLatencyExchange
