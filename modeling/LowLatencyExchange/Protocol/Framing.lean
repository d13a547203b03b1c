import LowLatencyExchange.Protocol.Events
import Mathlib.Tactic

/-!
# Frames recovered by the framing rule

A receiver reads the 8-byte header, then as many bytes as its length field says, and takes
the next frame to start there. The length field has 16 bits and `encode_frame` narrows the
payload's size to them, so the rule recovers exactly the frames of shorter payloads.
-/
namespace LowLatencyExchange.Protocol

open LittleEndian

/-- The framing rule finds a frame at the front of a buffer and `rest` behind it. -/
structure Recovers (type : MessageType) (flags : UInt16) (payload rest buffer : List UInt8)
    (header : WireHeader) : Prop where
  decoded : decodeHeader buffer = some header
  magic : header.magic = 0x584C
  version : header.version = 1
  type : header.type = type.value
  flags : header.flags = flags
  length : header.payloadLength.toNat = payload.length
  payload : (buffer.drop kHeaderSize).take header.payloadLength.toNat = payload
  next : buffer.drop (kHeaderSize + header.payloadLength.toNat) = rest

/-- The header that `encode_frame` writes. -/
def frameHeader (type : MessageType) (payload : List UInt8) (flags : UInt16) : WireHeader :=
  ⟨kMagic, kVersion, type.value, flags, UInt16.ofNat payload.length⟩

section Frame

variable (type : MessageType) (flags : UInt16) (payload rest : List UInt8)

theorem drop_header (header : WireHeader) :
    (record (headerFields header) ++ (payload ++ rest)).drop kHeaderSize = payload ++ rest :=
  List.drop_left' (length_header header)

theorem recovers_of_lt (h : payload.length < 2 ^ 16) :
    Recovers type flags payload rest
      (record (headerFields (frameHeader type payload flags)) ++ (payload ++ rest))
      (frameHeader type payload flags) := by
  have hlen : (frameHeader type payload flags).payloadLength.toNat = payload.length :=
    UInt16.toNat_ofNat_of_lt' h
  refine ⟨decodeHeader_record _ _, rfl, rfl, rfl, rfl, hlen, ?_, ?_⟩
  · rw [drop_header, hlen, List.take_left]
  · rw [← List.drop_drop, drop_header, hlen, List.drop_left]

theorem not_recovers_of_ge {payload : List UInt8} (h : 2 ^ 16 ≤ payload.length)
    {buffer : List UInt8} {header : WireHeader} :
    ¬ Recovers type flags payload rest buffer header := by
  intro hr
  have hfield := header.payloadLength.toNat_lt
  have hlen := hr.length
  omega

end Frame

/-- Whatever `encode_frame` writes, the framing rule recovers the frame and the place of the
next one exactly when the payload's size fits the length field. -/
theorem encodeFrame_recovers_iff (type : MessageType) (flags : UInt16)
    (payload out frame : List UInt8) (h : encodeFrame type payload out flags = some frame) :
    (∃ header, Recovers type flags payload (out.drop (kHeaderSize + payload.length)) frame header) ↔
      payload.length < 2 ^ 16 := by
  have hroom : kHeaderSize + payload.length ≤ out.length := by
    by_contra hshort
    rw [encodeFrame, if_pos (by omega)] at h
    cases h
  constructor
  · rintro ⟨header, hr⟩
    by_contra hge
    exact not_recovers_of_ge type flags _ (not_lt.mp hge) hr
  · intro hlt
    rw [encodeFrame_eq type payload hroom flags, Option.some.injEq, List.append_assoc] at h
    subst h
    exact ⟨_, recovers_of_lt type flags payload _ hlt⟩

theorem encodeFrame_recovers_byte :
    ∃ header, Recovers .protocolError kFlagMore [7] [5]
      [0x4C, 0x58, 1, 23, 1, 0, 1, 0, 7, 5] header :=
  (encodeFrame_recovers_iff .protocolError kFlagMore [7] [9, 9, 9, 9, 9, 9, 9, 9, 9, 5]
    [0x4C, 0x58, 1, 23, 1, 0, 1, 0, 7, 5] (by decide)).mpr (by decide)

/-- A payload of 65536 bytes is framed with a length of zero. -/
theorem encodeFrame_drops_length :
    ∃ frame, encodeFrame .newOrder (List.replicate 65536 1) (List.replicate 65544 0) 0 =
        some frame ∧
      decodeHeader frame = some ⟨kMagic, kVersion, 1, 0, 0⟩ ∧
      ¬ ∃ header, Recovers .newOrder 0 (List.replicate 65536 1)
        ((List.replicate 65544 0).drop (kHeaderSize + 65536)) frame header := by
  have hlen : (List.replicate 65536 (1 : UInt8)).length = 65536 := List.length_replicate
  have hout : (List.replicate 65544 (0 : UInt8)).length = 65544 := List.length_replicate
  refine ⟨_, encodeFrame_eq .newOrder _ (by rw [hlen, hout]; decide) 0, ?_, ?_⟩
  · rw [List.append_assoc, decodeHeader_record, hlen]
    rfl
  · rintro ⟨header, hr⟩
    exact not_recovers_of_ge _ _ _ (by rw [hlen]; decide) hr

end LowLatencyExchange.Protocol
