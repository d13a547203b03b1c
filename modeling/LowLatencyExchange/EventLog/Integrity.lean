import LowLatencyExchange.EventLog.Format
import LowLatencyExchange.Library.FoldHash
import LowLatencyExchange.Protocol.Canonical
import Mathlib.Tactic

/-!
# Integrity of the event log

A record has one spelling: what `readRecord` takes off a file is exactly the record of the
command that it returns. The format is therefore a bijection between lists of commands and
the files that are read to their end, and a single damaged byte is always noticed in the
record that it lies in.
-/
namespace LowLatencyExchange.EventLog

open Protocol LittleEndian

/-! ## Records have one spelling -/

theorem decodeCommand_sound {type : UInt8} {payload : List UInt8} {command : CapturedCommand}
    (h : decodeCommand type payload = .ok command) :
    Loggable command ∧ (commandType command).value = type ∧ payload = commandPayload command := by
  unfold decodeCommand at h
  split at h
  · next htype =>
    obtain ⟨-, order, hok, hv, hpayload⟩ | ⟨-, code, herr⟩ :=
      newOrder_decodes payload initialNewOrder
    · rw [hok] at h
      cases h
      exact ⟨hv, MessageType.fromValue_eq_some.mp htype, hpayload⟩
    · rw [herr] at h
      cases h
  · next htype =>
    obtain ⟨-, order, hok, -, hpayload⟩ | ⟨-, code, herr⟩ :=
      cancelOrder_decodes payload initialCancelOrder
    · rw [hok] at h
      cases h
      exact ⟨trivial, MessageType.fromValue_eq_some.mp htype, hpayload⟩
    · rw [herr] at h
      cases h
  · next htype =>
    obtain ⟨-, order, hok, -, hpayload⟩ | ⟨-, code, herr⟩ :=
      replaceOrder_decodes payload initialReplaceOrder
    · rw [hok] at h
      cases h
      exact ⟨trivial, MessageType.fromValue_eq_some.mp htype, hpayload⟩
    · rw [herr] at h
      cases h
  · cases h

theorem readRecord_ended {input : List UInt8} (h : readRecord input = .ended) : input = [] := by
  unfold readRecord at h
  dsimp only at h
  split_ifs at h with hempty
  · rw [List.length_take, kRecordHeaderSize] at hempty
    exact List.length_eq_zero_iff.mp (by omega)
  · split at h <;> cases h

/-- A header whose fields were read and checked is the header that is written for them. -/
theorem recordHeader_eq {header payload : List UInt8} (hlen : header.length = kRecordHeaderSize)
    (hmagic : read 4 0 header = kRecordMagic) (hversion : header.getD 4 0 = kRecordVersion)
    (hsize : read 2 6 header = payload.length)
    (hsum : read 8 8 header = (checksum (header.getD 5 0) payload).toNat) :
    header = record (recordHeaderFields (header.getD 5 0) payload) := by
  refine (record_eq (recordHeader_contiguous _ _) ?_ ?_).symm
  · rw [kRecordHeaderSize] at hlen
    simp only [recordHeaderFields, List.forall_mem_cons, length_bytes, List.length_singleton,
      ← hmagic, ← hversion, ← hsize, ← hsum]
    refine ⟨bytes_read ?_, singleton_getD ?_, singleton_getD ?_, bytes_read ?_, bytes_read ?_,
      by simp⟩ <;> omega
  · rw [length_recordHeader, hlen]

/-- What is taken off the front of a file is the record of the command that is returned. -/
theorem readRecord_sound {input rest : List UInt8} {command : CapturedCommand}
    (h : readRecord input = .record command rest) :
    Loggable command ∧ input = commandRecord command ++ rest := by
  unfold readRecord at h
  dsimp only at h
  split_ifs at h with hempty hheader hfields hpayload hsum
  split at h
  · cases h
  · next hdecode =>
    cases h
    obtain ⟨hloggable, htype, hcommand⟩ := decodeCommand_sound hdecode
    rw [not_not] at hheader hpayload hsum
    simp only [not_or, not_not] at hfields
    obtain ⟨hmagic, hversion, -⟩ := hfields
    refine ⟨hloggable, ?_⟩
    have hhead := recordHeader_eq hheader hmagic hversion hpayload.symm hsum.symm
    rw [commandRecord, htype, ← hcommand, recordBytes_eq, ← hhead, List.append_assoc,
      ← List.drop_drop, List.take_append_drop, List.take_append_drop]

/-! ## The format as a bijection -/

/-- The writer after commands were appended to a fresh log. -/
def appendAll (commands : List CapturedCommand) : EventLogWriter :=
  Transducer.run (fun writer command => writer.append command none) EventLogWriter.new commands

theorem appendAll_file (commands : List CapturedCommand) :
    (appendAll commands).file = commands.flatMap commandRecord := by
  have happend : ∀ (file : List UInt8) (command : CapturedCommand),
      EventLogWriter.append ⟨true, file⟩ command none =
        (⟨true, file ++ commandRecord command⟩, true) := by
    intro file command
    simp only [EventLogWriter.append, encodeCommand_eq]
    rfl
  have hrun : appendAll commands = ⟨true, commands.flatMap commandRecord⟩ := by
    induction commands using List.reverseRecOn with
    | nil => rfl
    | append_singleton commands command ih =>
      rw [appendAll, Transducer.run_concat]
      change ((appendAll commands).append command none).1 = _
      rw [ih, happend, List.flatMap_append, List.flatMap_singleton]
  rw [hrun]

/-- What was appended is read back, and a file that is read to its end is what its commands
are appended as. -/
theorem log_bijection :
    (∀ commands, (∀ command ∈ commands, Loggable command) →
      RecordStream.records reader (appendAll commands).file = (commands, none)) ∧
    (∀ file commands, RecordStream.records reader file = (commands, none) →
      (appendAll commands).file = file) := by
  refine ⟨?_, ?_⟩
  · intro commands h
    rw [appendAll_file]
    exact RecordStream.records_encoded (reader_append h) reader_nil
  · intro file commands h
    rw [appendAll_file]
    refine (RecordStream.records_sound ?_ ?_ h).symm
    · intro input command rest hr
      exact (readRecord_sound hr).2
    · intro input hr
      exact readRecord_ended hr

/-! ## Damage -/

/-- The multiplier is odd, so that it has an inverse among the 64-bit numbers. -/
theorem mul_kFnvPrime_injective : Function.Injective (· * kFnvPrime) := by
  intro hash hash' h
  have hinverse : kFnvPrime * 14886173955864302971 = 1 := by decide
  have hmul := congrArg (· * (14886173955864302971 : UInt64)) h
  simpa only [UInt64.mul_assoc, hinverse, UInt64.mul_one] using hmul

theorem mix_injective_hash (value : UInt8) : Function.Injective (mix · value) :=
  fun _ _ h => (UInt64.xor_left_inj _).mp (mul_kFnvPrime_injective h)

theorem mix_injective_byte (hash : UInt64) : Function.Injective (mix hash) :=
  fun _ _ h => UInt8.toUInt64_inj.mp ((UInt64.xor_right_inj _).mp (mul_kFnvPrime_injective h))

/-- A payload with one other byte has another checksum. -/
theorem checksum_set_ne (type : UInt8) {payload : List UInt8} {i : Nat} {byte : UInt8}
    (hi : i < payload.length) (hbyte : payload[i] ≠ byte) :
    checksum type (payload.set i byte) ≠ checksum type payload := by
  unfold checksum
  rw [List.length_set, List.foldl_append, List.foldl_append]
  exact FoldHash.foldl_set_ne mix_injective_hash mix_injective_byte hi hbyte _

/-- The three command types differ in the sizes of their payloads. -/
theorem commandType_eq_of_size {command command' : CapturedCommand}
    (h : (commandPayload command).length = (commandPayload command').length) :
    commandType command = commandType command' := by
  rw [length_commandPayload, length_commandPayload] at h
  cases command <;> cases command' <;>
    simp [commandType, MessageType.payloadSize, kNewOrderSize, kCancelOrderSize,
      kReplaceOrderSize] at h ⊢

theorem commandHeader_type (command : CapturedCommand) :
    read 1 5 (commandHeader command) = (commandType command).value.toNat := by
  have hm : (5, [(commandType command).value]) ∈
      recordHeaderFields (commandType command).value (commandPayload command) := by
    simp [recordHeaderFields]
  have h := read_record (recordHeader_contiguous _ _) hm
  simpa [value, commandHeader] using h

theorem commandHeader_size (command : CapturedCommand) :
    read 2 6 (commandHeader command) = (commandPayload command).length := by
  refine read_recordHeader _ _ (by simp [recordHeaderFields]) ?_
  have := (commandType command).payloadSize_le
  rw [length_commandPayload]
  omega

theorem commandHeader_checksum (command : CapturedCommand) :
    read 8 8 (commandHeader command) =
      (checksum (commandType command).value (commandPayload command)).toNat :=
  read_recordHeader _ _ (by simp [recordHeaderFields]) (UInt64.toNat_lt _)

theorem commandType_eq_of_value {command command' : CapturedCommand}
    (h : (commandType command).value.toNat = (commandType command').value.toNat) :
    commandType command = commandType command' := by
  have hvalue := congrArg MessageType.fromValue (UInt8.toNat_inj.mp h)
  rw [MessageType.fromValue_value, MessageType.fromValue_value] at hvalue
  exact Option.some.inj hvalue

/-- No record starts with a record in which one byte of the header was changed. -/
theorem damaged_header {command command' : CapturedCommand} {i : Nat} {byte : UInt8}
    {rest rest' : List UInt8} (hi : i < (commandHeader command).length)
    (hbyte : (commandHeader command)[i] ≠ byte) :
    (commandHeader command).set i byte ++ commandPayload command ++ rest ≠
      commandRecord command' ++ rest' := by
  intro heq
  rw [commandRecord_eq, List.append_assoc, List.append_assoc] at heq
  obtain ⟨hheader, hpayload⟩ := List.append_inj heq (by
    rw [List.length_set, length_commandHeader, length_commandHeader])
  -- the type and the length determine each other, and one of the two is undamaged
  have htype : commandType command = commandType command' := by
    by_cases hsize : i < 6 ∨ 6 + 2 ≤ i
    · apply commandType_eq_of_size
      rw [← commandHeader_size, ← commandHeader_size, ← hheader, read_set hsize]
    · apply commandType_eq_of_value
      rw [← commandHeader_type, ← commandHeader_type, ← hheader, read_set (by omega)]
  have hsame : commandPayload command = commandPayload command' := by
    refine (List.append_inj hpayload ?_).1
    rw [length_commandPayload, length_commandPayload, htype]
  have hget : ((commandHeader command).set i byte)[i]? = (commandHeader command)[i]? := by
    rw [hheader, commandHeader, commandHeader, htype, hsame]
  rw [List.getElem?_set_self hi, List.getElem?_eq_getElem hi] at hget
  exact hbyte (Option.some.inj hget).symm

/-- No record starts with a record in which one byte of the payload was changed. -/
theorem damaged_payload {command command' : CapturedCommand} {i : Nat} {byte : UInt8}
    {rest rest' : List UInt8} (hi : i < (commandPayload command).length)
    (hbyte : (commandPayload command)[i] ≠ byte) :
    commandHeader command ++ (commandPayload command).set i byte ++ rest ≠
      commandRecord command' ++ rest' := by
  intro heq
  rw [commandRecord_eq, List.append_assoc, List.append_assoc] at heq
  obtain ⟨hheader, hpayload⟩ := List.append_inj heq (by
    rw [length_commandHeader, length_commandHeader])
  have htype : commandType command = commandType command' := by
    apply commandType_eq_of_value
    rw [← commandHeader_type, ← commandHeader_type, hheader]
  have hsame : (commandPayload command).set i byte = commandPayload command' := by
    refine (List.append_inj hpayload ?_).1
    rw [List.length_set, length_commandPayload, length_commandPayload, htype]
  have hsum : checksum (commandType command).value ((commandPayload command).set i byte) =
      checksum (commandType command).value (commandPayload command) := by
    apply UInt64.toNat_inj.mp
    rw [hsame, ← commandHeader_checksum, hheader, commandHeader_checksum, htype]
  exact checksum_set_ne _ hi hbyte hsum

/-- A record with one other byte cannot be read. -/
theorem readRecord_damaged (command : CapturedCommand) {i : Nat} {byte : UInt8}
    (hi : i < (commandRecord command).length) (hbyte : (commandRecord command)[i] ≠ byte)
    (rest : List UInt8) :
    ∃ e, readRecord ((commandRecord command).set i byte ++ rest) = .error e := by
  have hlength := length_commandHeader command
  cases hread : readRecord ((commandRecord command).set i byte ++ rest) with
  | error e => exact ⟨e, rfl⟩
  | ended =>
    have hnil := congrArg List.length (readRecord_ended hread)
    simp only [List.length_append, List.length_set, List.length_nil] at hnil
    omega
  | record command' rest' =>
    have hsound := (readRecord_sound hread).2
    simp only [commandRecord_eq command] at hi hbyte hsound
    by_cases hheader : i < (commandHeader command).length
    · rw [List.getElem_append_left hheader] at hbyte
      rw [List.set_append_left _ _ hheader] at hsound
      exact absurd hsound (damaged_header hheader hbyte)
    · rw [List.getElem_append_right (by omega)] at hbyte
      rw [List.set_append_right _ _ (by omega)] at hsound
      exact absurd hsound (damaged_payload _ hbyte)

/-! ## Replaying a damaged log -/

/-- The wire form of an order shows whether it passes `validate`. -/
theorem validate_of_record_eq {order order' : NewOrder}
    (h : record (newOrderFields order) = record (newOrderFields order'))
    (hv : validate order' = none) : validate order = none := by
  have htype : ∀ o : NewOrder, (record (newOrderFields o)).getD kNewOrderTypeOffset 0 =
      if o.type = .limit then 0 else 1 := fun o =>
    byte_record (newOrderFields_contiguous o) (by simp [newOrderFields])
  have hprice : ∀ o : NewOrder, readI64 kNewOrderPriceOffset (record (newOrderFields o)) =
      o.limitPrice.elim 0 Price.ticks := by
    intro o
    refine readI64_record (newOrderFields_contiguous o) (by simp [newOrderFields]) ?_ ?_
    · cases o.limitPrice with
      | none => simp
      | some price => exact price.pos.le
    · cases o.limitPrice with
      | none => simp
      | some price => exact price.lt
  have hsome : ∀ o : NewOrder, o.limitPrice.isSome ↔ o.limitPrice.elim 0 Price.ticks ≠ 0 := by
    intro o
    cases o.limitPrice with
    | none => simp
    | some price => simp [price.pos.ne']
  have hlimit : ∀ o : NewOrder, o.type = .limit ↔ (if o.type = .limit then (0 : UInt8) else 1) = 0 := by
    intro o
    cases o.type <;> simp
  rw [validate_eq_none, hlimit, hsome, ← htype, ← hprice] at hv ⊢
  rw [h]
  exact hv

/-- A record that can be read was written for a loggable command. -/
theorem loggable_of_read {command command' : CapturedCommand} {rest rest' : List UInt8}
    (h : readRecord (commandRecord command ++ rest) = .record command' rest') :
    Loggable command := by
  obtain ⟨hloggable, heq⟩ := readRecord_sound h
  rw [commandRecord_eq, commandRecord_eq, List.append_assoc, List.append_assoc] at heq
  obtain ⟨hheader, hpayload⟩ := List.append_inj heq (by
    rw [length_commandHeader, length_commandHeader])
  have htype : commandType command = commandType command' := by
    apply commandType_eq_of_value
    rw [← commandHeader_type, ← commandHeader_type, hheader]
  have hsame : commandPayload command = commandPayload command' := by
    refine (List.append_inj hpayload ?_).1
    rw [length_commandPayload, length_commandPayload, htype]
  cases command with
  | submit order =>
    cases command' with
    | submit order' => exact validate_of_record_eq hsame hloggable
    | cancel order' => cases htype
    | replace order' => cases htype
  | cancel order => trivial
  | replace order => trivial

/-- A log that is replayed without an error was written from accepted commands. -/
theorem allAccepted_of_replayed {state : ReplayState} {commands : List CapturedCommand}
    (h : (RecordStream.consume reader applyCommand state
      (commands.flatMap commandRecord)).2 = none) : AllAccepted state.book commands := by
  induction commands generalizing state with
  | nil => simp [AllAccepted]
  | cons command commands ih =>
    rw [List.flatMap_cons] at h
    have hloggable : Loggable command := by
      cases hread : readRecord (commandRecord command ++ commands.flatMap commandRecord) with
      | ended =>
        have hnil := congrArg List.length (readRecord_ended hread)
        simp [commandRecord_eq, length_commandHeader, kRecordHeaderSize] at hnil
      | error e =>
        rw [RecordStream.consume_error _ _ (reader_read _ ▸ hread)] at h
        cases h
      | record command' rest => exact loggable_of_read hread
    have hread : reader.read (commandRecord command ++ commands.flatMap commandRecord) =
        .record command (commands.flatMap commandRecord) := by
      rw [reader_read]
      exact readRecord_append hloggable _
    rw [RecordStream.consume_record _ _ hread] at h
    have haccepted : (state.book.step command).2.accepted = true := by
      by_contra hrejected
      simp [applyCommand, hrejected] at h
    simp only [applyCommand, haccepted, if_true] at h
    exact List.forall_mem_cons.mpr ⟨haccepted, ih h⟩

/-- The offset at which the record of a command starts. -/
def recordStart (commands : List CapturedCommand) (k : Nat) : Nat :=
  ((commands.take k).flatMap commandRecord).length

theorem recordStart_whole (whole after : List CapturedCommand) :
    recordStart (whole ++ after) whole.length = (whole.flatMap commandRecord).length := by
  rw [recordStart, List.take_left]

theorem recordStart_next (whole : List CapturedCommand) (command : CapturedCommand)
    (after : List CapturedCommand) :
    recordStart (whole ++ command :: after) (whole.length + 1) =
      (whole.flatMap commandRecord).length + (commandRecord command).length := by
  rw [recordStart, List.take_append, List.take_of_length_le (by omega), Nat.add_sub_cancel_left,
    List.take_succ_cons, List.take_zero, List.flatMap_append, List.flatMap_singleton,
    List.length_append]

/-- A single changed byte in record `k` stops the replay there, with an error of `readRecord`.
What the replay returns is the state after the commands before that record. -/
theorem damage_detected {commands : List CapturedCommand}
    (hreplayed : (replayEventLog (some (appendAll commands).file)).error = none) {k offset : Nat}
    (hstart : recordStart commands k ≤ offset) (hend : offset < recordStart commands (k + 1))
    {byte : UInt8} (hbyte : (appendAll commands).file[offset]? ≠ some byte) :
    ∃ e, readRecord (((appendAll commands).file.set offset byte).drop (recordStart commands k)) =
        .error e ∧
      replay ((appendAll commands).file.set offset byte) =
        (⟨OrderBook.run (commands.take k), UInt64.ofNat k⟩, some e) ∧
      replayEventLog (some ((appendAll commands).file.set offset byte)) =
        ⟨some e, UInt64.ofNat k, (OrderBook.run (commands.take k)).stateDigest⟩ := by
  rw [appendAll_file] at hreplayed hbyte ⊢
  have haccepted : AllAccepted OrderBook.empty commands := allAccepted_of_replayed hreplayed
  have hk : k < commands.length := by
    by_contra hk
    rw [recordStart, List.take_of_length_le (by omega)] at hstart hend
    omega
  obtain ⟨before, command, after, rfl, rfl⟩ :
      ∃ before command after, commands = before ++ command :: after ∧ before.length = k :=
    ⟨commands.take k, commands[k], commands.drop (k + 1), by simp, by simp; omega⟩
  rw [recordStart_whole] at hstart ⊢
  rw [recordStart_next] at hend
  rw [List.flatMap_append, List.flatMap_cons] at hbyte ⊢
  have hi : offset - (before.flatMap commandRecord).length < (commandRecord command).length := by
    omega
  rw [List.getElem?_append_right hstart, List.getElem?_append_left hi,
    List.getElem?_eq_getElem hi] at hbyte
  obtain ⟨e, he⟩ := readRecord_damaged command hi (fun h => hbyte (congrArg some h))
    (after.flatMap commandRecord)
  rw [List.set_append_right _ _ hstart, List.set_append_left _ _ hi, List.drop_left,
    List.take_left]
  have hreplay := (replay_append haccepted.left _).trans
    (RecordStream.consume_error applyCommand _ ((reader_read _).trans he))
  refine ⟨e, he, hreplay, ?_⟩
  simp only [replayEventLog, hreplay]

/-- An order and its cancel: a record of 56 bytes and one of 32. -/
def orderAndCancel : List CapturedCommand :=
  [.submit ⟨SequenceNumber.of 1, OrderId.of 10, .sell, .limit, Quantity.of 5,
      some (Price.of 100)⟩,
    .cancel ⟨SequenceNumber.of 2, OrderId.of 10⟩]

/-- A changed byte in the order id of the cancel. -/
theorem orderAndCancel_damaged :
    ∃ e, readRecord (((appendAll orderAndCancel).file.set 80 11).drop
        (recordStart orderAndCancel 1)) = .error e ∧
      replay ((appendAll orderAndCancel).file.set 80 11) =
        (⟨OrderBook.run (orderAndCancel.take 1), 1⟩, some e) ∧
      replayEventLog (some ((appendAll orderAndCancel).file.set 80 11)) =
        ⟨some e, 1, (OrderBook.run (orderAndCancel.take 1)).stateDigest⟩ := by
  have haccepted : AllAccepted OrderBook.empty orderAndCancel := by
    unfold AllAccepted
    decide +kernel
  have hreplayed : (replayEventLog (some (appendAll orderAndCancel).file)).error = none := by
    rw [replayEventLog, appendAll_file, replay_records haccepted]
  exact damage_detected (k := 1) hreplayed (by decide +kernel) (by decide +kernel)
    (by decide +kernel)

end LowLatencyExchange.EventLog
