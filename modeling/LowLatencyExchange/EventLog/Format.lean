import LowLatencyExchange.EventLog.Basic
import Mathlib.Tactic

/-!
# Reading back what was appended

A command that passes `validate` is written as a record, and `readRecord` takes exactly this
record off the front of a file that starts with it.
-/
namespace LowLatencyExchange.EventLog

open Protocol LittleEndian

/-- The commands a log can hold: a new order has to pass `validate`. -/
def Loggable : CapturedCommand → Prop
  | .submit order => validate order = none
  | _ => True

def commandType : CapturedCommand → MessageType
  | .submit _ => .newOrder
  | .cancel _ => .cancelOrder
  | .replace _ => .replaceOrder

/-- The payload of a command, as the fields that its encoder stores. -/
def commandFields : CapturedCommand → List (Nat × List UInt8)
  | .submit order => newOrderFields order
  | .cancel order => cancelOrderFields order
  | .replace order => replaceOrderFields order

def commandPayload (command : CapturedCommand) : List UInt8 := record (commandFields command)

/-- The record of a command. -/
def commandRecord (command : CapturedCommand) : List UInt8 :=
  recordBytes (commandType command).value (commandPayload command)

theorem encodeCommand_eq (command : CapturedCommand) :
    encodeCommand command = some (commandType command, commandPayload command) := by
  cases command with
  | submit order =>
    rw [encodeCommand, encodeNewOrder, encodeFields_eq (newOrderFields_contiguous order)
      (length_newOrder order) List.length_replicate]
    rfl
  | cancel order =>
    rw [encodeCommand, encodeCancelOrder, encodeFields_eq (cancelOrderFields_contiguous order)
      (length_cancelOrder order) List.length_replicate]
    rfl
  | replace order =>
    rw [encodeCommand, encodeReplaceOrder, encodeFields_eq (replaceOrderFields_contiguous order)
      (length_replaceOrder order) List.length_replicate]
    rfl

theorem length_commandPayload (command : CapturedCommand) :
    (commandPayload command).length = (commandType command).payloadSize := by
  cases command with
  | submit order => exact length_newOrder order
  | cancel order => exact length_cancelOrder order
  | replace order => exact length_replaceOrder order

theorem decodeCommand_payload {command : CapturedCommand} (h : Loggable command) :
    decodeCommand (commandType command).value (commandPayload command) = .ok command := by
  rw [decodeCommand, MessageType.fromValue_value]
  cases command with
  | submit order =>
    simp only [commandType, commandPayload, commandFields, decodeNewOrder_record h,
      decodedCommand]
  | cancel order =>
    simp only [commandType, commandPayload, commandFields, decodeCancelOrder_record,
      decodedCommand]
  | replace order =>
    simp only [commandType, commandPayload, commandFields, decodeReplaceOrder_record,
      decodedCommand]

theorem commandType_inbound (command : CapturedCommand) :
    isInbound (commandType command).value = true := by
  cases command <;> rfl

/-- An append that returned true has put the whole record into the file. -/
theorem append_of_written {writer : EventLogWriter} {command : CapturedCommand}
    {failure : Option Nat} (h : (writer.append command failure).2 = true) :
    (writer.append command failure).1 = ⟨true, writer.file ++ commandRecord command⟩ := by
  unfold EventLogWriter.append at h ⊢
  rw [encodeCommand_eq] at h ⊢
  cases hgood : writer.good with
  | false => simp [hgood] at h
  | true =>
    cases failure with
    | some kept => simp [hgood] at h
    | none => simp [commandRecord]

/-! ## The header of a record -/

section Header

variable (type : UInt8) (payload : List UInt8)

theorem recordHeader_contiguous : Contiguous 0 (recordHeaderFields type payload) := by
  simp [recordHeaderFields, Contiguous]

theorem length_recordHeader :
    (record (recordHeaderFields type payload)).length = kRecordHeaderSize := by
  simp [record, recordHeaderFields, kRecordHeaderSize]

theorem recordBytes_eq :
    recordBytes type payload = record (recordHeaderFields type payload) ++ payload := by
  rw [recordBytes, writeAll_eq (recordHeader_contiguous type payload), length_recordHeader,
    List.drop_eq_nil_of_le (by simp), List.append_nil]

/-- A number in the header, read back. -/
theorem read_recordHeader {offset width n : Nat}
    (hm : (offset, bytes width n) ∈ recordHeaderFields type payload) (hn : n < 256 ^ width) :
    read width offset (record (recordHeaderFields type payload)) = n := by
  have h := read_record (recordHeader_contiguous type payload) hm
  rw [length_bytes] at h
  rw [h, value_bytes_of_lt hn]

end Header

/-- The header of a command's record. -/
def commandHeader (command : CapturedCommand) : List UInt8 :=
  record (recordHeaderFields (commandType command).value (commandPayload command))

theorem commandRecord_eq (command : CapturedCommand) :
    commandRecord command = commandHeader command ++ commandPayload command :=
  recordBytes_eq _ _

theorem length_commandHeader (command : CapturedCommand) :
    (commandHeader command).length = kRecordHeaderSize := length_recordHeader _ _

/-- The header of a command passes the checks, and the payload is read next. -/
theorem readRecord_header (command : CapturedCommand) (body : List UInt8) :
    readRecord (commandHeader command ++ body) =
      let size := (commandPayload command).length
      let payload := body.take size
      if payload.length ≠ size then .error .truncatedPayload
      else if (checksum (commandType command).value payload).toNat ≠
          (checksum (commandType command).value (commandPayload command)).toNat then
        .error .checksumMismatch
      else
        match decodeCommand (commandType command).value payload with
        | .error e => .error e
        | .ok command => .record command (body.drop size) := by
  obtain ⟨type, htype⟩ : ∃ type, (commandType command).value = type := ⟨_, rfl⟩
  obtain ⟨payload, hpayload⟩ : ∃ payload, commandPayload command = payload := ⟨_, rfl⟩
  have hsize : payload.length = (commandType command).payloadSize :=
    hpayload ▸ length_commandPayload command
  have hle := (commandType command).payloadSize_le
  have hheader := length_recordHeader type payload
  have hbytes : commandHeader command = record (recordHeaderFields type payload) := by
    rw [commandHeader, htype, hpayload]
  have htake : (record (recordHeaderFields type payload) ++ body).take kRecordHeaderSize =
      record (recordHeaderFields type payload) := List.take_left' hheader
  have hdrop : (record (recordHeaderFields type payload) ++ body).drop kRecordHeaderSize = body :=
    List.drop_left' hheader
  have hmagic : read 4 0 (record (recordHeaderFields type payload)) = kRecordMagic :=
    read_recordHeader type payload (by simp [recordHeaderFields]) (by decide)
  have hversion : (record (recordHeaderFields type payload)).getD 4 0 = kRecordVersion :=
    byte_record (recordHeader_contiguous type payload) (by simp [recordHeaderFields])
  have htypeByte : (record (recordHeaderFields type payload)).getD 5 0 = type :=
    byte_record (recordHeader_contiguous type payload) (by simp [recordHeaderFields])
  have hlength : read 2 6 (record (recordHeaderFields type payload)) = payload.length :=
    read_recordHeader type payload (by simp [recordHeaderFields]) (by omega)
  have hsum : read 8 8 (record (recordHeaderFields type payload)) =
      (checksum type payload).toNat :=
    read_recordHeader type payload (by simp [recordHeaderFields]) (checksum type payload).toNat_lt
  have hexpected : (expectedPayloadLength type).map UInt16.toNat = some payload.length := by
    have htoNat : (UInt16.ofNat (commandType command).payloadSize).toNat =
        (commandType command).payloadSize :=
      UInt16.toNat_ofNat_of_lt' (by rw [UInt16.size]; omega)
    rw [← htype, expectedPayloadLength, MessageType.fromValue_value, hsize, Option.map_some,
      Option.map_some, htoNat]
  have hdropRecord : (record (recordHeaderFields type payload) ++ body).drop
      (kRecordHeaderSize + payload.length) = body.drop payload.length := by
    rw [← List.drop_drop, hdrop]
  have hfields : ¬ (kRecordMagic ≠ kRecordMagic ∨ kRecordVersion ≠ kRecordVersion ∨
      isInbound type = false ∨ some payload.length ≠ some payload.length ∨
      kRecordPayloadMax < payload.length) := by
    have hin := commandType_inbound command
    rw [htype] at hin
    simp only [kRecordPayloadMax, kNewOrderSize]
    rintro (h | h | h | h | h)
    · exact h rfl
    · exact h rfl
    · simp [hin] at h
    · exact h rfl
    · omega
  rw [hbytes, htype, hpayload, readRecord]
  simp only [htake, hdrop, hheader, hmagic, hversion, htypeByte, hlength, hsum, hexpected,
    hdropRecord]
  rw [if_neg (by decide), if_neg (not_not.mpr rfl)]
  exact if_neg hfields

/-- A record is taken off the front of the rest of the file. -/
theorem readRecord_append {command : CapturedCommand} (h : Loggable command)
    (rest : List UInt8) :
    readRecord (commandRecord command ++ rest) = .record command rest := by
  rw [commandRecord_eq, List.append_assoc, readRecord_header]
  simp only [List.take_left, List.drop_left, decodeCommand_payload h, ne_eq, not_true_eq_false,
    if_false]

/-! ## Replaying a log -/

/-- Every command of a sequence is accepted when its turn comes. -/
def AllAccepted (b : OrderBook) (commands : List Command) : Prop :=
  ∀ result ∈ Transducer.outputs OrderBook.step b commands, result.accepted = true

theorem loggable_of_accepted {b : OrderBook} {command : Command}
    (h : (b.step command).2.accepted = true) : Loggable command := by
  cases command with
  | submit order =>
    change validate order = none
    cases hv : validate order with
    | none => rfl
    | some e => simp [OrderBook.step, OrderBook.submit, hv, Result.accepted] at h
  | cancel order => trivial
  | replace order => trivial

theorem AllAccepted.loggable {b : OrderBook} {commands : List Command}
    (h : AllAccepted b commands) : ∀ command ∈ commands, Loggable command := by
  induction commands generalizing b with
  | nil => simp
  | cons command commands ih =>
    obtain ⟨hfirst, hrest⟩ := List.forall_mem_cons.mp h
    exact List.forall_mem_cons.mpr ⟨loggable_of_accepted hfirst, ih hrest⟩

theorem AllAccepted.left {b : OrderBook} {before after : List Command}
    (h : AllAccepted b (before ++ after)) : AllAccepted b before := by
  intro result hresult
  refine h result ?_
  rw [Transducer.outputs_append]
  exact List.mem_append_left _ hresult

/-- The loop of a replay accepts what the book accepts, and counts it. -/
theorem applyCommand_run {state : ReplayState} {commands : List Command}
    (h : AllAccepted state.book commands) :
    Transducer.run applyCommand state commands =
      ⟨Transducer.run OrderBook.step state.book commands,
        state.replayedCommands + UInt64.ofNat commands.length⟩ ∧
    ∀ refusal ∈ Transducer.outputs applyCommand state commands, refusal = none := by
  induction commands generalizing state with
  | nil => simp
  | cons command commands ih =>
    obtain ⟨hfirst, hrest⟩ := List.forall_mem_cons.mp h
    have happly : applyCommand state command =
        (⟨(state.book.step command).1, state.replayedCommands + 1⟩, none) := by
      simp only [applyCommand, hfirst, if_true]
    have hnext : AllAccepted
        (⟨(state.book.step command).1, state.replayedCommands + 1⟩ : ReplayState).book commands :=
      hrest
    obtain ⟨hrun, houtputs⟩ := ih hnext
    rw [Transducer.run_cons, Transducer.run_cons, Transducer.outputs_cons, happly]
    refine ⟨?_, List.forall_mem_cons.mpr ⟨rfl, houtputs⟩⟩
    rw [hrun, List.length_cons, UInt64.add_assoc, Nat.add_comm commands.length, UInt64.ofNat_add]
    rfl

theorem reader_read (input : List UInt8) : reader.read input = readRecord input := rfl

theorem readRecord_nil : readRecord [] = .ended := by
  rw [readRecord, List.take_nil]
  exact if_pos rfl

theorem reader_append {commands : List CapturedCommand}
    (h : ∀ command ∈ commands, Loggable command) : ∀ command ∈ commands, ∀ rest,
      reader.read (commandRecord command ++ rest) = .record command rest := by
  intro command hcommand rest
  rw [reader_read]
  exact readRecord_append (h command hcommand) rest

theorem reader_nil : reader.read [] = .ended := by
  rw [reader_read, readRecord_nil]

/-- The replay of a log that starts with accepted commands goes on with what follows them. -/
theorem replay_append {commands : List Command} (h : AllAccepted OrderBook.empty commands)
    (rest : List UInt8) :
    replay (commands.flatMap commandRecord ++ rest) =
      RecordStream.consume reader applyCommand
        ⟨OrderBook.run commands, UInt64.ofNat commands.length⟩ rest := by
  have hstart : AllAccepted ReplayState.start.book commands := h
  obtain ⟨hrun, houtputs⟩ := applyCommand_run hstart
  rw [replay, RecordStream.consume_encoded (reader_append h.loggable) houtputs, hrun]
  simp only [ReplayState.start, OrderBook.run, UInt64.zero_add]

/-- The log of an accepted command sequence is replayed without an error, to the same book. -/
theorem replay_records {commands : List Command} (h : AllAccepted OrderBook.empty commands) :
    replay (commands.flatMap commandRecord) =
      (⟨OrderBook.run commands, UInt64.ofNat commands.length⟩, none) := by
  have happend := replay_append h []
  rwa [List.append_nil, RecordStream.consume_ended _ _ reader_nil] at happend

end LowLatencyExchange.EventLog
