import LowLatencyExchange.Gateway.Writing
import Mathlib.Tactic

/-!
# What a session reads

The frames of a stream, and the checks that each has to pass, in order. Whatever the order
of completions, polls and writes, the commands a session pushes are those of the frames at
the start of the stream that pass every check. The first frame that fails one is answered by
a single protocol error with the code of that check, and ends the reading.
-/
namespace LowLatencyExchange.TcpSession

open Protocol

/-! ## Checks -/

/-- The code of the first check that does not hold. -/
def firstFailure (checks : List (Bool × ErrorCode)) : Option ErrorCode :=
  (checks.find? (fun check => !check.1)).map Prod.snd

def headerChecks (header : WireHeader) : List (Bool × ErrorCode) :=
  [(header.magic = kMagic, .malformedFrame),
    (header.version = kVersion, .unsupportedVersion),
    (header.payloadLength ≤ kMaxPayloadLength, .payloadTooLarge),
    (flagsReservedBitsClear header.flags, .invalidField),
    ((expectedPayloadLength header.type).isSome, .unknownMessageType),
    (expectedPayloadLength header.type = some header.payloadLength, .payloadLengthInvalid)]

/-- The types a client may send. -/
def commandTypes : List MessageType := [.newOrder, .cancelOrder, .replaceOrder]

/-- The checks on a whole frame behind the header checks, for the push with index `n` after
a command with sequence number `last`. -/
def payloadChecks (tryPush : Nat → Bool) (n last : Nat) (type : UInt8) (payload : List UInt8) :
    List (Bool × ErrorCode) :=
  (commandTypes.any (fun t => t.value = type), .unknownMessageType) ::
    match decodePayload type payload with
    | .error code => [(false, code)]
    | .ok command =>
      [(last < command.sequence.value, .sequenceOutOfOrder), (tryPush n, .sessionOverloaded)]

@[simp] theorem firstFailure_nil : firstFailure [] = none := rfl

@[simp] theorem firstFailure_cons (check : Bool × ErrorCode) (checks : List (Bool × ErrorCode)) :
    firstFailure (check :: checks) = if check.1 then firstFailure checks else some check.2 := by
  cases h : check.1 <;> simp [firstFailure, h]

theorem firstFailure_eq_none {checks : List (Bool × ErrorCode)} :
    firstFailure checks = none ↔ ∀ check ∈ checks, check.1 = true := by
  simp [firstFailure]

theorem validateHeader_eq (header : WireHeader) :
    validateHeader header = firstFailure (headerChecks header) := by
  have hle : header.payloadLength ≤ kMaxPayloadLength ↔
      ¬ kMaxPayloadLength < header.payloadLength := UInt16.not_lt.symm
  simp only [validateHeader, headerChecks, firstFailure_cons, firstFailure_nil]
  cases expectedPayloadLength header.type <;> grind

/-! ## Frames -/

structure Frame where
  headerBytes : List UInt8
  header : WireHeader
  payload : List UInt8
  command : Command

def Frame.bytes (f : Frame) : List UInt8 := f.headerBytes ++ f.payload

/-- A frame that passes every check. -/
structure Admissible (tryPush : Nat → Bool) (n last : Nat) (f : Frame) : Prop where
  headerSize : f.headerBytes.length = 8
  decoded : decodeHeader f.headerBytes = some f.header
  magic : f.header.magic = 0x584C
  version : f.header.version = 1
  bounded : f.header.payloadLength ≤ 1024
  flags : f.header.flags &&& 0xFFFE = 0
  type : ∃ t ∈ commandTypes, f.header.type = t.value ∧
    f.header.payloadLength.toNat = t.payloadSize ∧ f.payload.length = t.payloadSize
  payload : decodePayload f.header.type f.payload = .ok f.command
  sequence : last < f.command.sequence.value
  pushed : tryPush n = true

/-- Frames that pass every check, one after another. -/
def Admitted (tryPush : Nat → Bool) : Nat → Nat → List Frame → Prop
  | _, _, [] => True
  | n, last, f :: fs =>
    Admissible tryPush n last f ∧ Admitted tryPush (n + 1) f.command.sequence.value fs

/-- The sequence number behind a list of frames. -/
def sequenceAfter (last : Nat) (fs : List Frame) : Nat :=
  fs.foldl (fun _ f => f.command.sequence.value) last

theorem admitted_concat {tryPush : Nat → Bool} {n last : Nat} {fs : List Frame} {f : Frame} :
    Admitted tryPush n last (fs ++ [f]) ↔
      Admitted tryPush n last fs ∧ Admissible tryPush (n + fs.length) (sequenceAfter last fs) f := by
  induction fs generalizing n last with
  | nil => simp [Admitted, sequenceAfter]
  | cons g fs ih =>
    simp only [List.cons_append, Admitted, ih, List.length_cons, sequenceAfter, List.foldl_cons,
      and_assoc, Nat.add_assoc, Nat.add_comm 1]

/-! ## One completed read -/

/-- The number of bytes that an outstanding read asks for. -/
def Reading.requested : Reading → Nat
  | .header => kHeaderSize
  | .payload header => header.payloadLength.toNat

def messageOf (sessionId : UInt64) (type : UInt8) (command : Command) : InboundMessage :=
  ⟨sessionId, command,
    UInt32.ofNat (kHeaderSize + ((expectedPayloadLength type).getD 0).toNat)⟩

/-- What the completion of a read can do, with the guard of each path. -/
inductive ReadStep (tryPush : Nat → Bool) (error : Bool) (v : ReaderView) : ReaderView → Prop
  | idle (hr : v.reading = none) : ReadStep tryPush error v v
  | failed (reading : Reading) (hr : v.reading = some reading)
      (h : error = true ∨ v.unread.length < Reading.requested reading) :
      ReadStep tryPush error v { v with reading := none }
  | headerRejected (headerBytes rest : List UInt8) (header : WireHeader) (code : ErrorCode)
      (hr : v.reading = some .header) (hu : v.unread = headerBytes ++ rest)
      (hlen : headerBytes.length = kHeaderSize) (hd : decodeHeader headerBytes = some header)
      (hc : firstFailure (headerChecks header) = some code) :
      ReadStep tryPush error v
        { v with reading := none, unread := rest, errors := v.errors ++ [⟨code, header.type⟩] }
  | headerAccepted (headerBytes rest : List UInt8) (header : WireHeader)
      (hr : v.reading = some .header) (hu : v.unread = headerBytes ++ rest)
      (hlen : headerBytes.length = kHeaderSize) (hd : decodeHeader headerBytes = some header)
      (hc : firstFailure (headerChecks header) = none) :
      ReadStep tryPush error v
        { v with
          reading := some (.payload header), unread := rest
          reads := v.reads ++ [⟨kMaxPayloadLength.toNat, header.payloadLength.toNat⟩] }
  | frameRejected (header : WireHeader) (payload rest : List UInt8) (code : ErrorCode)
      (hr : v.reading = some (.payload header)) (hu : v.unread = payload ++ rest)
      (hlen : payload.length = header.payloadLength.toNat)
      (hc : firstFailure (payloadChecks tryPush v.pushed.length v.lastSequence header.type
        payload) = some code) :
      ReadStep tryPush error v
        { v with reading := none, unread := rest, errors := v.errors ++ [⟨code, header.type⟩] }
  | enqueued (header : WireHeader) (payload rest : List UInt8) (command : Command)
      (hr : v.reading = some (.payload header)) (hu : v.unread = payload ++ rest)
      (hlen : payload.length = header.payloadLength.toNat)
      (hd : decodePayload header.type payload = .ok command)
      (hc : firstFailure (payloadChecks tryPush v.pushed.length v.lastSequence header.type
        payload) = none) :
      ReadStep tryPush error v
        { v with
          reading := some .header, unread := rest
          reads := v.reads ++ [⟨kHeaderSize, kHeaderSize⟩]
          pushed := v.pushed ++ [messageOf v.sessionId header.type command]
          lastSequence := command.sequence.value }

theorem readerView_sendProtocolError (c : Connection) (code : ErrorCode) (type : UInt8) :
    readerView (sendProtocolError c code type) =
      { readerView c with errors := c.errors ++ [⟨code, type⟩] } := by
  rw [sendProtocolError_eq, readerView_sendRawFrame]
  rfl

theorem onReadHeader_readStep (tryPush : Nat → Bool) {c : Connection}
    (hr : c.reading = some .header) (error : Bool) :
    ReadStep tryPush error (readerView c)
      (readerView (onReadHeader { c with reading := none } error)) := by
  unfold onReadHeader
  cases hdel : delivered { c with reading := none } kHeaderSize error with
  | none => exact .failed .header hr (delivered_eq_none hdel)
  | some bytes =>
    obtain ⟨hlen, hu⟩ := delivered_eq_some hdel
    obtain ⟨header, hd⟩ := decodeHeader_isSome hlen
    simp only [hd]
    cases hv : validateHeader header with
    | some code =>
      rw [readerView_sendProtocolError]
      exact .headerRejected bytes _ header code hr hu hlen hd (validateHeader_eq header ▸ hv)
    | none =>
      exact .headerAccepted bytes _ header hr hu hlen hd (validateHeader_eq header ▸ hv)

theorem decodePayload_isCommand {type : UInt8} {payload : List UInt8} {command : Command}
    (h : decodePayload type payload = .ok command) :
    commandTypes.any (fun t => t.value = type) = true := by
  unfold decodePayload at h
  split at h
  · next ht => simp [commandTypes, MessageType.fromValue_eq_some.mp ht]
  · next ht => simp [commandTypes, MessageType.fromValue_eq_some.mp ht]
  · next ht => simp [commandTypes, MessageType.fromValue_eq_some.mp ht]
  · cases h

theorem decodePayload_of_not_command {type : UInt8} (payload : List UInt8)
    (h : commandTypes.any (fun t => t.value = type) = false) :
    decodePayload type payload = .error .unknownMessageType := by
  unfold decodePayload
  split
  · next ht => simp [commandTypes, MessageType.fromValue_eq_some.mp ht] at h
  · next ht => simp [commandTypes, MessageType.fromValue_eq_some.mp ht] at h
  · next ht => simp [commandTypes, MessageType.fromValue_eq_some.mp ht] at h
  · rfl

/-- A payload that is not decoded fails the checks with the code of the decoder. -/
theorem payloadChecks_of_error {type : UInt8} {payload : List UInt8} {code : ErrorCode}
    (h : decodePayload type payload = .error code) (tryPush : Nat → Bool) (n last : Nat) :
    firstFailure (payloadChecks tryPush n last type payload) = some code := by
  rw [payloadChecks, h, firstFailure_cons]
  cases hc : commandTypes.any (fun t => t.value = type) with
  | true => simp
  | false =>
    have hunknown := decodePayload_of_not_command payload hc
    rw [h] at hunknown
    cases hunknown
    simp

theorem payloadChecks_of_ok {type : UInt8} {payload : List UInt8} {command : Command}
    (h : decodePayload type payload = .ok command) (tryPush : Nat → Bool) (n last : Nat) :
    firstFailure (payloadChecks tryPush n last type payload) =
      if command.sequence.value ≤ last then some .sequenceOutOfOrder
      else if tryPush n = false then some .sessionOverloaded
      else none := by
  rw [payloadChecks, h, firstFailure_cons, decodePayload_isCommand h]
  simp only [if_true, firstFailure_cons, firstFailure_nil, decide_eq_true_eq]
  grind

theorem onReadPayload_readStep (tryPush : Nat → Bool) {c : Connection} {header : WireHeader}
    (hr : c.reading = some (.payload header)) (error : Bool) :
    ReadStep tryPush error (readerView c)
      (readerView (onReadPayload tryPush { c with reading := none } header error)) := by
  unfold onReadPayload
  cases hdel : delivered { c with reading := none } header.payloadLength.toNat error with
  | none => exact .failed (.payload header) hr (delivered_eq_none hdel)
  | some payload =>
    obtain ⟨hlen, hu⟩ := delivered_eq_some hdel
    dsimp only
    cases hd : decodePayload header.type payload with
    | error code =>
      rw [readerView_sendProtocolError]
      exact .frameRejected header payload _ code hr hu hlen (payloadChecks_of_error hd ..)
    | ok command =>
      have hchecks := payloadChecks_of_ok hd tryPush c.pushed.length c.lastSequence
      simp only [enqueueCommand]
      by_cases hs : command.sequence.value ≤ c.lastSequence
      · rw [if_pos hs] at hchecks ⊢
        simp only [Bool.false_eq_true, if_false, readerView_sendProtocolError]
        exact .frameRejected header payload _ _ hr hu hlen hchecks
      · rw [if_neg hs] at hchecks ⊢
        by_cases hp : tryPush c.pushed.length = false
        · rw [if_pos hp] at hchecks ⊢
          simp only [Bool.false_eq_true, if_false, readerView_sendProtocolError]
          exact .frameRejected header payload _ _ hr hu hlen hchecks
        · rw [if_neg hp] at hchecks ⊢
          exact .enqueued header payload _ command hr hu hlen hd hchecks

theorem onRead_readStep (tryPush : Nat → Bool) (c : Connection) (error : Bool) :
    ReadStep tryPush error (readerView c) (readerView (onRead tryPush c error)) := by
  unfold onRead
  cases hr : c.reading with
  | none => exact .idle hr
  | some reading =>
    cases reading with
    | header => exact onReadHeader_readStep tryPush hr error
    | payload header => exact onReadPayload_readStep tryPush hr error

theorem onRead_sessionId (tryPush : Nat → Bool) (c : Connection) (error : Bool) :
    (onRead tryPush c error).sessionId = c.sessionId := by
  have hstep := onRead_readStep tryPush c error
  change (readerView (onRead tryPush c error)).sessionId = (readerView c).sessionId
  generalize readerView (onRead tryPush c error) = v at hstep
  cases hstep <;> rfl

/-- A completed read pushes no message, or one, with the session's id. -/
theorem onRead_pushed (tryPush : Nat → Bool) (c : Connection) (error : Bool) :
    ∃ messages, (onRead tryPush c error).pushed = c.pushed ++ messages ∧
      (messages = [] ∨ ∃ message, messages = [message] ∧ message.sessionId = c.sessionId ∧
        tryPush c.pushed.length = true) := by
  have hstep := onRead_readStep tryPush c error
  change ∃ messages, (readerView (onRead tryPush c error)).pushed = (readerView c).pushed ++ messages ∧ _
  generalize readerView (onRead tryPush c error) = v at hstep
  cases hstep with
  | enqueued header payload rest command hr hu hlen hd hc =>
    refine ⟨_, rfl, .inr ⟨_, rfl, rfl, ?_⟩⟩
    rw [payloadChecks_of_ok hd] at hc
    split_ifs at hc with _ hpush
    exact Bool.eq_true_of_not_eq_false hpush
  | _ => exact ⟨[], (List.append_nil _).symm, .inl rfl⟩

/-! ## Where the reading stands -/

/-- The stream ends inside the frame that starts it. -/
def Incomplete (rest : List UInt8) : Prop :=
  rest.length < kHeaderSize ∨ ∃ header, decodeHeader (rest.take kHeaderSize) = some header ∧
    firstFailure (headerChecks header) = none ∧
    rest.length < kHeaderSize + header.payloadLength.toNat

/-- Where the reader stands when `rest` is left of the stream behind the frames it took: `n`
of them, the last with sequence number `last`. A read may have failed for another reason than
the end of the stream only if the connection is `broken`. -/
inductive Ending (tryPush : Nat → Bool) (broken : Prop) (n last : Nat) (rest : List UInt8)
    (v : ReaderView) : Prop
  | betweenFrames (hr : v.reading = some .header) (he : v.errors = []) (hs : rest = v.unread)
  | insideFrame (headerBytes : List UInt8) (header : WireHeader)
      (hr : v.reading = some (.payload header)) (he : v.errors = [])
      (hs : rest = headerBytes ++ v.unread) (hlen : headerBytes.length = kHeaderSize)
      (hd : decodeHeader headerBytes = some header)
      (hc : firstFailure (headerChecks header) = none)
  | badHeader (headerBytes : List UInt8) (header : WireHeader) (code : ErrorCode)
      (hr : v.reading = none) (he : v.errors = [⟨code, header.type⟩])
      (hs : rest = headerBytes ++ v.unread) (hlen : headerBytes.length = kHeaderSize)
      (hd : decodeHeader headerBytes = some header)
      (hc : firstFailure (headerChecks header) = some code)
  | badFrame (headerBytes payload : List UInt8) (header : WireHeader) (code : ErrorCode)
      (hr : v.reading = none) (he : v.errors = [⟨code, header.type⟩])
      (hs : rest = headerBytes ++ payload ++ v.unread) (hlen : headerBytes.length = kHeaderSize)
      (hd : decodeHeader headerBytes = some header)
      (hh : firstFailure (headerChecks header) = none)
      (hp : payload.length = header.payloadLength.toNat)
      (hc : firstFailure (payloadChecks tryPush n last header.type payload) = some code)
  | streamEnded (hr : v.reading = none) (he : v.errors = []) (h : broken ∨ Incomplete rest)

/-- A read of the header buffer or of the payload buffer that stays within it. -/
def Fits (r : ReadRequest) : Prop :=
  r.size ≤ r.bufferSize ∧ (r.bufferSize = kHeaderSize ∨ r.bufferSize = kMaxPayloadLength.toNat)

/-- The frames taken so far, and what is left of the stream. -/
structure Taken (tryPush : Nat → Bool) (broken : Prop) (stream : List UInt8) (v : ReaderView)
    (frames : List Frame) (rest : List UInt8) : Prop where
  split : stream = frames.flatMap Frame.bytes ++ rest
  admitted : Admitted tryPush 0 0 frames
  pushed : v.pushed = frames.map (fun f => messageOf v.sessionId f.header.type f.command)
  last : v.lastSequence = sequenceAfter 0 frames
  ending : Ending tryPush broken frames.length v.lastSequence rest v
  reads : ∀ r ∈ v.reads, Fits r

/-- A frame whose header and payload pass all checks is admissible. -/
theorem admissible_of_checks {tryPush : Nat → Bool} {n last : Nat} {f : Frame}
    (hlen : f.headerBytes.length = kHeaderSize) (hd : decodeHeader f.headerBytes = some f.header)
    (hh : firstFailure (headerChecks f.header) = none)
    (hp : f.payload.length = f.header.payloadLength.toNat)
    (hcommand : decodePayload f.header.type f.payload = .ok f.command)
    (hc : firstFailure (payloadChecks tryPush n last f.header.type f.payload) = none) :
    Admissible tryPush n last f := by
  rw [payloadChecks_of_ok hcommand] at hc
  have hheader := firstFailure_eq_none.mp hh
  simp only [headerChecks, List.mem_cons, List.not_mem_nil, or_false, forall_eq_or_imp, forall_eq,
    decide_eq_true_eq] at hheader
  obtain ⟨hmagic, hversion, hbounded, hflags, _, hexpected⟩ := hheader
  obtain ⟨t, ht, hsize⟩ := expectedPayloadLength_eq_some hexpected
  have hcommands := decodePayload_isCommand hcommand
  have hmem : t ∈ commandTypes := by
    obtain ⟨t', ht', hv⟩ := List.any_eq_true.mp hcommands
    have hvalue : t'.value = f.header.type := by simpa using hv
    have heq := MessageType.fromValue_value t'
    rw [hvalue, ← ht, MessageType.fromValue_value] at heq
    exact Option.some.inj heq ▸ ht'
  have hsequence : ¬ f.command.sequence.value ≤ last := by
    intro hle
    simp [hle] at hc
  rw [if_neg hsequence] at hc
  exact {
    headerSize := hlen
    decoded := hd
    magic := hmagic
    version := hversion
    bounded := hbounded
    flags := by simpa [flagsReservedBitsClear, kFlagReservedMask] using hflags
    type := ⟨t, hmem, ht.symm, hsize, hp.trans hsize⟩
    payload := hcommand
    sequence := Nat.lt_of_not_le hsequence
    pushed := by
      by_contra hfalse
      simp [Bool.eq_false_iff.mpr hfalse] at hc }

/-- The bytes of an admissible frame pass the header checks, have the length that the header
announces, and pass the payload checks. -/
theorem Admissible.checks {tryPush : Nat → Bool} {n last : Nat} {f : Frame}
    (h : Admissible tryPush n last f) :
    firstFailure (headerChecks f.header) = none ∧
      f.payload.length = f.header.payloadLength.toNat ∧
      firstFailure (payloadChecks tryPush n last f.header.type f.payload) = none := by
  obtain ⟨t, ht, htype, hsize, hlen⟩ := h.type
  have hexpected : expectedPayloadLength f.header.type = some f.header.payloadLength := by
    rw [expectedPayloadLength, htype, MessageType.fromValue_value, Option.map_some, ← hsize,
      UInt16.ofNat_toNat]
  have hflags : flagsReservedBitsClear f.header.flags = true := by
    simpa [flagsReservedBitsClear, kFlagReservedMask] using h.flags
  refine ⟨?_, hlen.trans hsize.symm, ?_⟩
  · refine firstFailure_eq_none.mpr ?_
    simp only [headerChecks, List.mem_cons, List.not_mem_nil, or_false, forall_eq_or_imp, forall_eq,
      decide_eq_true_eq, hexpected, Option.isSome_some, hflags, and_true]
    exact ⟨h.magic, h.version, h.bounded⟩
  · rw [payloadChecks_of_ok h.payload, if_neg (Nat.not_le.mpr h.sequence), h.pushed]
    rfl

/-! ## Runs -/

section Invariant

variable {tryPush : Nat → Bool} {broken : Prop} {stream : List UInt8} {v v' : ReaderView}
  {frames : List Frame} {rest : List UInt8} {n last : Nat}

theorem Taken.pushed_length (h : Taken tryPush broken stream v frames rest) :
    v.pushed.length = frames.length := by
  rw [h.pushed, List.length_map]

theorem Ending.of_header (h : Ending tryPush broken n last rest v)
    (hr : v.reading = some .header) : v.errors = [] ∧ rest = v.unread := by
  cases h with
  | betweenFrames _ he hs => exact ⟨he, hs⟩
  | insideFrame _ _ hr' => simp [hr] at hr'
  | badHeader _ _ _ hr' => simp [hr] at hr'
  | badFrame _ _ _ _ hr' => simp [hr] at hr'
  | streamEnded hr' => simp [hr] at hr'

theorem Ending.of_payload {header : WireHeader} (h : Ending tryPush broken n last rest v)
    (hr : v.reading = some (.payload header)) :
    v.errors = [] ∧ ∃ headerBytes, rest = headerBytes ++ v.unread ∧
      headerBytes.length = kHeaderSize ∧ decodeHeader headerBytes = some header ∧
      firstFailure (headerChecks header) = none := by
  cases h with
  | insideFrame headerBytes header' hr' he hs hlen hd hc =>
    obtain rfl : header' = header := by simpa [hr] using hr'.symm
    exact ⟨he, headerBytes, hs, hlen, hd, hc⟩
  | betweenFrames hr' => simp [hr] at hr'
  | badHeader _ _ _ hr' => simp [hr] at hr'
  | badFrame _ _ _ _ hr' => simp [hr] at hr'
  | streamEnded hr' => simp [hr] at hr'

/-- A read that fails leaves a frame incomplete, or the connection is broken. -/
theorem Ending.failed {reading : Reading} (h : Ending tryPush broken n last rest v)
    (hr : v.reading = some reading)
    (hfail : broken ∨ v.unread.length < Reading.requested reading) :
    Ending tryPush broken n last rest { v with reading := none } := by
  cases reading with
  | header =>
    obtain ⟨he, rfl⟩ := h.of_header hr
    exact .streamEnded rfl he (hfail.imp_right .inl)
  | payload header =>
    obtain ⟨he, headerBytes, rfl, hlen, hd, hc⟩ := h.of_payload hr
    refine .streamEnded rfl he (hfail.imp_right fun hlt => .inr ⟨header, ?_, hc, ?_⟩)
    · rw [List.take_left' hlen]
      exact hd
    · rw [List.length_append, hlen]
      exact Nat.add_lt_add_left hlt _

/-- A completed read takes the reader on by at most one frame. -/
theorem Taken.read {error : Bool} (h : Taken tryPush broken stream v frames rest)
    (hb : error = true → broken) (hstep : ReadStep tryPush error v v') :
    ∃ frames rest, Taken tryPush broken stream v' frames rest := by
  cases hstep with
  | idle hr => exact ⟨frames, rest, h⟩
  | failed reading hr hfail =>
    exact ⟨frames, rest, { h with ending := h.ending.failed hr (hfail.imp_left hb) }⟩
  | headerRejected headerBytes rest' header code hr hu hlen hd hc =>
    obtain ⟨he, hs⟩ := h.ending.of_header hr
    refine ⟨frames, rest, { h with ending := ?_ }⟩
    exact .badHeader headerBytes header code rfl (by simp [he]) (hs.trans hu) hlen hd hc
  | headerAccepted headerBytes rest' header hr hu hlen hd hc =>
    obtain ⟨he, hs⟩ := h.ending.of_header hr
    have hbounded := firstFailure_eq_none.mp hc
      (decide (header.payloadLength ≤ kMaxPayloadLength), .payloadTooLarge) (by simp [headerChecks])
    have hfits : Fits ⟨kMaxPayloadLength.toNat, header.payloadLength.toNat⟩ :=
      ⟨UInt16.le_iff_toNat_le.mp (by simpa using hbounded), .inr rfl⟩
    refine ⟨frames, rest, { h with ending := ?_, reads := ?_ }⟩
    · exact .insideFrame headerBytes header rfl he (hs.trans hu) hlen hd hc
    · exact List.forall_mem_append.mpr ⟨h.reads, List.forall_mem_singleton.mpr hfits⟩
  | frameRejected header payload rest' code hr hu hlen hc =>
    obtain ⟨he, headerBytes, hs, hlen', hd, hh⟩ := h.ending.of_payload hr
    rw [h.pushed_length] at hc
    refine ⟨frames, rest, { h with ending := ?_ }⟩
    refine .badFrame headerBytes payload header code rfl (by simp [he]) ?_ hlen' hd hh hlen hc
    rw [hs, hu, List.append_assoc]
  | enqueued header payload rest' command hr hu hlen hd hc =>
    obtain ⟨he, headerBytes, hs, hlen', hd', hh⟩ := h.ending.of_payload hr
    rw [h.pushed_length, h.last] at hc
    let f : Frame := ⟨headerBytes, header, payload, command⟩
    have hf : Admissible tryPush frames.length (sequenceAfter 0 frames) f :=
      admissible_of_checks hlen' hd' hh hlen hd hc
    have hfits : Fits ⟨kHeaderSize, kHeaderSize⟩ := ⟨le_rfl, .inl rfl⟩
    refine ⟨frames ++ [f], rest', ?_, ?_, ?_, ?_, .betweenFrames rfl he rfl, ?_⟩
    · rw [h.split, hs, hu, List.flatMap_append]
      simp [f, Frame.bytes]
    · rw [admitted_concat, Nat.zero_add]
      exact ⟨h.admitted, hf⟩
    · simp [h.pushed, f]
    · simp [sequenceAfter, f]
    · exact List.forall_mem_append.mpr ⟨h.reads, List.forall_mem_singleton.mpr hfits⟩

theorem taken_start (sessionId : UInt64) :
    Taken tryPush broken stream (readerView (start sessionId stream)) [] stream where
  split := rfl
  admitted := trivial
  pushed := rfl
  last := rfl
  ending := .betweenFrames rfl rfl rfl
  reads := by simp [readerView, start, doReadHeader, Fits]

/-- Behind the frames taken there is no further frame that passes every check, once the
reading has ended and unless the connection is broken. -/
theorem Ending.longest (h : Ending tryPush broken n last rest v) (hr : v.reading = none)
    (hb : ¬ broken) {f : Frame} (hf : Admissible tryPush n last f) : ¬ f.bytes <+: rest := by
  rintro ⟨tail, htail⟩
  obtain ⟨hheader, hpayload, hchecks⟩ := hf.checks
  have hsize := hf.headerSize
  rw [Frame.bytes, List.append_assoc] at htail
  cases h with
  | betweenFrames hr' => simp [hr] at hr'
  | insideFrame _ _ hr' => simp [hr] at hr'
  | badHeader headerBytes header code _ _ hs hlen hd hc =>
    obtain ⟨heq, _⟩ := List.append_inj (htail.trans hs) (hsize.trans hlen.symm)
    obtain rfl : f.header = header := Option.some.inj (hf.decoded.symm.trans (heq ▸ hd))
    simp [hheader] at hc
  | badFrame headerBytes payload header code _ _ hs hlen hd _ hp hc =>
    rw [List.append_assoc] at hs
    obtain ⟨heq, hrest⟩ := List.append_inj (htail.trans hs) (hsize.trans hlen.symm)
    obtain rfl : f.header = header := Option.some.inj (hf.decoded.symm.trans (heq ▸ hd))
    obtain ⟨heq', _⟩ := List.append_inj hrest (hpayload.trans hp.symm)
    rw [← heq', hchecks] at hc
    cases hc
  | streamEnded _ _ hend =>
    have hlen : rest.length = 8 + f.payload.length + tail.length := by
      rw [← htail, List.length_append, List.length_append, hsize, Nat.add_assoc]
    rcases hend.resolve_left hb with hshort | ⟨header, hd, _, hshort⟩
    · simp only [kHeaderSize] at hshort
      omega
    · have htake : rest.take kHeaderSize = f.headerBytes := by
        rw [← htail]
        exact List.take_left' hsize
      rw [htake, hf.decoded] at hd
      obtain rfl := Option.some.inj hd
      simp only [kHeaderSize] at hshort
      omega

/-! ## Progress -/

/-- Bytes that are still to be read, and one more inside a frame. Every completed read lowers
this, unless it ends the reading. -/
def ReaderView.work (v : ReaderView) : Nat :=
  v.unread.length + if v.reading = some .header then 0 else 1

theorem ReadStep.work_lt {error : Bool} (h : ReadStep tryPush error v v') :
    v'.reading = none ∨ v'.work < v.work := by
  cases h with
  | idle hr => exact .inl hr
  | failed => exact .inl rfl
  | headerRejected => exact .inl rfl
  | frameRejected => exact .inl rfl
  | headerAccepted headerBytes rest' header hr hu hlen hd hc =>
    refine .inr ?_
    simp only [ReaderView.work, hr, hu, List.length_append, hlen, kHeaderSize, if_true,
      Option.some.injEq, reduceCtorEq, if_false]
    omega
  | enqueued header payload rest' command hr hu =>
    refine .inr ?_
    simp only [ReaderView.work, hr, hu, List.length_append, if_true, Option.some.injEq,
      reduceCtorEq, if_false]
    omega

end Invariant

def isRead : SessionEvent → Bool
  | .read _ => true
  | _ => false

section Run

variable (tryPush : Nat → Bool) (sessionId : UInt64) (stream : List UInt8)

theorem run_append (events events' : List SessionEvent) :
    run tryPush sessionId stream (events ++ events') =
      Transducer.run (fun c event => (step tryPush c event, ()))
        (run tryPush sessionId stream events) events' :=
  Transducer.run_append _ _ _ _

theorem run_concat (events : List SessionEvent) (event : SessionEvent) :
    run tryPush sessionId stream (events ++ [event]) =
      step tryPush (run tryPush sessionId stream events) event :=
  Transducer.run_concat _ _ _ _

/-- Only a completed read changes the reader. -/
theorem readerView_step (c : Connection) (event : SessionEvent) :
    (isRead event = false ∧ readerView (step tryPush c event) = readerView c) ∨
      ∃ error, event = .read error ∧
        ReadStep tryPush error (readerView c) (readerView (step tryPush c event)) := by
  cases event with
  | read error => exact .inr ⟨error, rfl, onRead_readStep tryPush c error⟩
  | poll message => exact .inl ⟨rfl, readerView_onPoll c message⟩
  | write error =>
    rw [step]
    split_ifs
    · exact .inl ⟨rfl, readerView_onWrite c error⟩
    · exact .inl ⟨rfl, rfl⟩

theorem run_taken {broken : Prop} {events : List SessionEvent}
    (hb : SessionEvent.read true ∈ events → broken) :
    ∃ frames rest, Taken tryPush broken stream
      (readerView (run tryPush sessionId stream events)) frames rest := by
  induction events using List.reverseRecOn with
  | nil => exact ⟨[], stream, taken_start sessionId⟩
  | append_singleton events event ih =>
    obtain ⟨frames, rest, h⟩ := ih fun hm => hb (List.mem_append_left _ hm)
    rw [run_concat]
    rcases readerView_step tryPush (run tryPush sessionId stream events) event with
      ⟨_, heq⟩ | ⟨error, rfl, hstep⟩
    · exact ⟨frames, rest, heq ▸ h⟩
    · refine h.read (fun he => hb ?_) hstep
      simp [he]

theorem run_sessionId (events : List SessionEvent) :
    (run tryPush sessionId stream events).sessionId = sessionId := by
  refine Transducer.run_invariant (fun c : Connection => c.sessionId = sessionId) ?_ rfl events
  intro c event hc
  rcases readerView_step tryPush c event with ⟨_, heq⟩ | ⟨error, rfl, hstep⟩
  · exact (congrArg ReaderView.sessionId heq).trans hc
  · exact (onRead_sessionId tryPush c error).trans hc

/-- A reader that has stopped stays as it is. -/
theorem stopped_step {c : Connection} (h : c.reading = none) (event : SessionEvent) :
    readerView (step tryPush c event) = readerView c := by
  rcases readerView_step tryPush c event with ⟨_, heq⟩ | ⟨error, rfl, _⟩
  · exact heq
  · rw [step, onRead, h]

theorem stopped_run {c : Connection} (h : c.reading = none) (events : List SessionEvent) :
    readerView (Transducer.run (fun c event => (step tryPush c event, ())) c events) =
      readerView c := by
  refine Transducer.run_invariant (fun c' => readerView c' = readerView c) ?_ rfl events
  intro c' event hc'
  have hstopped : c'.reading = none := (congrArg ReaderView.reading hc').trans h
  exact (stopped_step tryPush hstopped event).trans hc'

/-- Every read lowers the work, so there are at most as many reads as bytes. -/
theorem run_work (events : List SessionEvent) :
    (run tryPush sessionId stream events).reading = none ∨
      (readerView (run tryPush sessionId stream events)).work + events.countP isRead ≤
        stream.length := by
  induction events using List.reverseRecOn with
  | nil => exact .inr le_rfl
  | append_singleton events event ih =>
    rw [run_concat]
    rcases ih with hstopped | hwork
    · exact .inl ((congrArg ReaderView.reading (stopped_step tryPush hstopped event)).trans hstopped)
    · rcases readerView_step tryPush (run tryPush sessionId stream events) event with
        ⟨hread, heq⟩ | ⟨error, rfl, hstep⟩
      · refine .inr ?_
        rwa [heq, List.countP_append, List.countP_singleton, hread]
      · rcases hstep.work_lt with hnone | hlt
        · exact .inl hnone
        · refine .inr ?_
          have hcount : (events ++ [SessionEvent.read error]).countP isRead =
              events.countP isRead + 1 := by
            rw [List.countP_append]
            rfl
          omega

/-- For every stream, every pattern of queue outcomes and every order of completions, the
session has pushed exactly the commands of the frames it took from the start of the stream,
each of which passed every check, and it stands at `rest` as `Ending` says: between or inside
frames, or stopped by one protocol error with the code of the first check that failed, or at
the end of the stream. It has sent one frame for that error, and otherwise nothing but messages
that were polled. Once stopped it took the longest such prefix, and stays as it is; it
has stopped when more reads have completed than the stream has bytes. No read exceeds its
buffer. -/
theorem session_reads (events : List SessionEvent) :
    let c := run tryPush sessionId stream events
    ∃ frames rest,
      stream = frames.flatMap Frame.bytes ++ rest ∧
      Admitted tryPush 0 0 frames ∧
      c.pushed = frames.map (fun f => messageOf sessionId f.header.type f.command) ∧
      Ending tryPush (SessionEvent.read true ∈ events) frames.length (sequenceAfter 0 frames) rest
        (readerView c) ∧
      (queued c).filter QueuedFrame.fatal = c.errors.map errorFrame ∧
      (∀ f ∈ queued c, f.fatal = false → ∃ message, SessionEvent.poll message ∈ events ∧
        f.bytes = serializeOutbound message) ∧
      (c.reading = none → SessionEvent.read true ∉ events → ∀ f,
        Admissible tryPush frames.length (sequenceAfter 0 frames) f → ¬ f.bytes <+: rest) ∧
      (c.reading = none → ∀ events',
        readerView (run tryPush sessionId stream (events ++ events')) = readerView c) ∧
      (stream.length < events.countP isRead → c.reading = none) ∧
      ∀ r ∈ c.reads, Fits r := by
  intro c
  obtain ⟨frames, rest, h⟩ := run_taken tryPush sessionId stream
    (fun hm : SessionEvent.read true ∈ events => hm)
  have hid := run_sessionId tryPush sessionId stream events
  have hending := h.ending
  rw [h.last] at hending
  refine ⟨frames, rest, h.split, h.admitted, ?_, hending,
    (run_writerInv tryPush sessionId stream events).sent,
    run_polled tryPush sessionId stream events,
    fun hr hb f hf => hending.longest hr hb hf, fun hr events' => ?_, fun hlt => ?_, h.reads⟩
  · have hpushed := h.pushed
    simp only [readerView, hid] at hpushed
    exact hpushed
  · rw [run_append]
    exact stopped_run tryPush hr events'
  · rcases run_work tryPush sessionId stream events with hnone | hle
    · exact hnone
    · omega

end Run

end LowLatencyExchange.TcpSession
