import LowLatencyExchange.EventLog.Integrity
import Mathlib.Tactic

/-!
# Replaying a log that was cut off

The first bytes of a log hold some records whole and, unless the cut is at the end of one,
a part of the next. A replay applies the whole ones and says whether the cut falls into a
header or into a payload.
-/
namespace LowLatencyExchange.EventLog

open Protocol LittleEndian

/-- What a replay reports when it finds `present` bytes of its last record. -/
def cutError (present : Nat) : Option EventLogError :=
  if present = 0 then none
  else if present < kRecordHeaderSize then some .truncatedHeader
  else some .truncatedPayload

theorem readRecord_cut_header {input : List UInt8} (hpos : input.length ≠ 0)
    (hlt : input.length < kRecordHeaderSize) : readRecord input = .error .truncatedHeader := by
  have htake : input.take kRecordHeaderSize = input := List.take_of_length_le hlt.le
  simp only [readRecord, htake]
  rw [if_neg hpos, if_pos hlt.ne]

theorem readRecord_cut_payload (command : CapturedCommand) {body : List UInt8}
    (hlt : body.length < (commandPayload command).length) :
    readRecord (commandHeader command ++ body) = .error .truncatedPayload := by
  have htake : body.take (commandPayload command).length = body := List.take_of_length_le hlt.le
  simp only [readRecord_header, htake]
  rw [if_pos hlt.ne]

/-- A part of a record ends the replay with the error that tells how far it reaches. -/
theorem consume_cut (command : CapturedCommand) {present : Nat}
    (hlt : present < (commandRecord command).length) (state : ReplayState) :
    RecordStream.consume reader applyCommand state ((commandRecord command).take present) =
      (state, cutError present) := by
  have hlength : ((commandRecord command).take present).length = present :=
    List.length_take_of_le hlt.le
  unfold cutError
  split_ifs with hzero hheader
  · rw [hzero, List.take_zero, RecordStream.consume_ended _ _ reader_nil]
  · refine RecordStream.consume_error _ _ ((reader_read _).trans ?_)
    exact readRecord_cut_header (by omega) (by omega)
  · refine RecordStream.consume_error _ _ ((reader_read _).trans ?_)
    rw [commandRecord_eq, List.length_append, length_commandHeader] at hlt
    have hsplit : (commandRecord command).take present =
        commandHeader command ++ (commandPayload command).take (present - kRecordHeaderSize) := by
      rw [commandRecord_eq, List.take_append, length_commandHeader,
        List.take_of_length_le (by rw [length_commandHeader]; omega)]
    rw [hsplit]
    exact readRecord_cut_payload command (by rw [List.length_take]; omega)

/-! ## Record boundaries -/

section Boundaries

variable {commands : List CapturedCommand}

theorem recordStart_mono (commands : List CapturedCommand) {i j : Nat} (h : i ≤ j) :
    recordStart commands i ≤ recordStart commands j := by
  obtain ⟨d, rfl⟩ := Nat.exists_eq_add_of_le h
  unfold recordStart
  rw [List.take_add, List.flatMap_append, List.length_append]
  omega

/-- The first `n` bytes hold exactly `k` records whole. -/
structure Whole (commands : List CapturedCommand) (n k : Nat) : Prop where
  le : k ≤ commands.length
  start : recordStart commands k ≤ n
  next : k < commands.length → n < recordStart commands (k + 1)

namespace Whole

variable {n k : Nat}

theorem iff_lt (h : Whole commands n k) {i : Nat} (hi : i < commands.length) :
    recordStart commands (i + 1) ≤ n ↔ i < k := by
  constructor
  · intro hle
    by_contra hge
    have hnext := h.next (by omega)
    have hmono := recordStart_mono commands (show k + 1 ≤ i + 1 by omega)
    omega
  · intro hlt
    have hmono := recordStart_mono commands (show i + 1 ≤ k by omega)
    have hstart := h.start
    omega

theorem eq_start_iff (h : Whole commands n k) :
    n = recordStart commands k ↔ ∃ j ≤ commands.length, n = recordStart commands j := by
  constructor
  · intro hn
    exact ⟨k, h.le, hn⟩
  · rintro ⟨j, hj, rfl⟩
    have hstart := h.start
    rcases Nat.lt_or_ge k j with hlt | hge
    · have hnext := h.next (by omega)
      have hmono := recordStart_mono commands (show k + 1 ≤ j by omega)
      omega
    · have hmono := recordStart_mono commands hge
      omega

end Whole

end Boundaries

theorem cutError_eq_none {present : Nat} : cutError present = none ↔ present = 0 := by
  unfold cutError
  split_ifs with hzero hheader <;> simp [hzero]

/-- Replaying the first bytes of a log applies the records that they hold whole. -/
theorem replay_take {commands : List CapturedCommand}
    (haccepted : AllAccepted OrderBook.empty commands) {n : Nat}
    (hn : n ≤ (commands.flatMap commandRecord).length) :
    ∃ k, Whole commands n k ∧
      replay ((commands.flatMap commandRecord).take n) =
        (⟨OrderBook.run (commands.take k), UInt64.ofNat k⟩,
          cutError (n - recordStart commands k)) := by
  obtain ⟨whole, after, rfl, hle, hcut⟩ := RecordStream.take_encoded commandRecord commands n hn
  have hstart := recordStart_whole whole after
  have htake : (whole ++ after).take whole.length = whole := List.take_left
  refine ⟨whole.length, ?_, ?_⟩
  · refine ⟨by simp, by omega, fun hlt => ?_⟩
    rcases hcut with ⟨rfl, -⟩ | ⟨command, after', rfl, hpart, -⟩
    · simp at hlt
    · rw [recordStart_next]
      omega
  · rw [hstart, htake]
    rcases hcut with ⟨rfl, hbytes⟩ | ⟨command, after', rfl, hpart, hbytes⟩
    · have hzero : n - (whole.flatMap commandRecord).length = 0 := by
        rw [List.append_nil] at hn
        omega
      rw [hbytes, replay_records haccepted.left, hzero]
      rfl
    · rw [hbytes, replay_append haccepted.left, consume_cut command hpart]

/-- The replay of the first `n` bytes of a log applies exactly the commands whose records lie
within them. It succeeds exactly at a record boundary, and otherwise tells a cut in a header
from a cut in a payload. -/
theorem replay_truncated {commands : List CapturedCommand}
    (hreplayed : (replayEventLog (some (appendAll commands).file)).error = none) {n : Nat}
    (hn : n ≤ (appendAll commands).file.length) :
    ∃ k ≤ commands.length, recordStart commands k ≤ n ∧
      (∀ i < commands.length, recordStart commands (i + 1) ≤ n ↔ i < k) ∧
      replayEventLog (some ((appendAll commands).file.take n)) =
        ⟨cutError (n - recordStart commands k), UInt64.ofNat k,
          (OrderBook.run (commands.take k)).stateDigest⟩ ∧
      ((replayEventLog (some ((appendAll commands).file.take n))).error = none ↔
        ∃ j ≤ commands.length, n = recordStart commands j) := by
  rw [appendAll_file] at hreplayed hn ⊢
  have haccepted : AllAccepted OrderBook.empty commands := allAccepted_of_replayed hreplayed
  obtain ⟨k, hwhole, hreplay⟩ := replay_take haccepted hn
  have hresult : replayEventLog (some ((commands.flatMap commandRecord).take n)) =
      ⟨cutError (n - recordStart commands k), UInt64.ofNat k,
        (OrderBook.run (commands.take k)).stateDigest⟩ := by
    rw [replayEventLog, hreplay]
  refine ⟨k, hwhole.le, hwhole.start, fun i hi => hwhole.iff_lt hi, hresult, ?_⟩
  rw [hresult, cutError_eq_none, ← hwhole.eq_start_iff]
  have hstart := hwhole.start
  omega

/-- A cut four bytes into the header of the cancel. -/
theorem orderAndCancel_cut :
    (replayEventLog (some ((appendAll orderAndCancel).file.take 60))).error =
      some .truncatedHeader ∧
    (replayEventLog (some ((appendAll orderAndCancel).file.take 60))).replayedCommands = 1 := by
  have haccepted : AllAccepted OrderBook.empty orderAndCancel := by
    unfold AllAccepted
    decide +kernel
  have hreplayed : (replayEventLog (some (appendAll orderAndCancel).file)).error = none := by
    rw [replayEventLog, appendAll_file, replay_records haccepted]
  obtain ⟨k, hk, -, hwhole, hresult, -⟩ :=
    replay_truncated hreplayed (n := 60) (by decide +kernel)
  have hfirst := (hwhole 0 (by decide)).mp (by decide +kernel)
  have hsecond := (hwhole 1 (by decide)).not.mp (by decide +kernel)
  obtain rfl : k = 1 := by omega
  rw [hresult]
  exact ⟨by decide +kernel, rfl⟩

end LowLatencyExchange.EventLog
