import LowLatencyExchange.EventLog.Format
import LowLatencyExchange.Exchange.Delivery
import LowLatencyExchange.Protocol.Framing
import Mathlib.Tactic

/-!
# The client of the gateway benchmark

How the client frames its commands and takes the server's frames off its socket, and where the
server's session stands in a stream of such commands.
-/
namespace LowLatencyExchange

open Protocol EventLog LittleEndian TcpSession MatchingEngineService

namespace Benchmark

/-! ## Frames of commands -/

/-- `encode_frame`, with a frame of the right size. -/
def encodeFrame (type : MessageType) (payload : List UInt8) : Option (List UInt8) :=
  Protocol.encodeFrame type payload (List.replicate (kHeaderSize + payload.length) 0) 0

def encodeCommand : Command → Option (List UInt8)
  | .submit order =>
    (encodeNewOrder order (List.replicate kNewOrderSize 0)).bind (encodeFrame .newOrder)
  | .cancel order =>
    (encodeCancelOrder order (List.replicate kCancelOrderSize 0)).bind (encodeFrame .cancelOrder)
  | .replace order =>
    (encodeReplaceOrder order (List.replicate kReplaceOrderSize 0)).bind
      (encodeFrame .replaceOrder)

def frameHeaderOf (command : Command) : WireHeader :=
  frameHeader (commandType command) (commandPayload command) 0

/-- The frame of a command. -/
def commandFrame (command : Command) : List UInt8 :=
  record (headerFields (frameHeaderOf command)) ++ commandPayload command

theorem encodeFrame_eq (type : MessageType) (payload : List UInt8) :
    encodeFrame type payload =
      some (record (headerFields (frameHeader type payload 0)) ++ payload) := by
  rw [encodeFrame, Protocol.encodeFrame_eq type payload (List.length_replicate ..).ge,
    List.drop_eq_nil_of_le (by simp), List.append_nil]
  rfl

theorem encodeCommand_eq (command : Command) :
    encodeCommand command = some (commandFrame command) := by
  have hencoded := EventLog.encodeCommand_eq command
  cases command with
  | submit order =>
    simp only [EventLog.encodeCommand, Option.map_eq_some_iff, Prod.mk.injEq] at hencoded
    obtain ⟨payload, hpayload, -, rfl⟩ := hencoded
    rw [encodeCommand, hpayload, Option.bind_some, encodeFrame_eq]
    rfl
  | cancel order =>
    simp only [EventLog.encodeCommand, Option.map_eq_some_iff, Prod.mk.injEq] at hencoded
    obtain ⟨payload, hpayload, -, rfl⟩ := hencoded
    rw [encodeCommand, hpayload, Option.bind_some, encodeFrame_eq]
    rfl
  | replace order =>
    simp only [EventLog.encodeCommand, Option.map_eq_some_iff, Prod.mk.injEq] at hencoded
    obtain ⟨payload, hpayload, -, rfl⟩ := hencoded
    rw [encodeCommand, hpayload, Option.bind_some, encodeFrame_eq]
    rfl

theorem frameHeaderOf_type (command : Command) :
    (frameHeaderOf command).type = (commandType command).value := rfl

theorem frameHeaderOf_length (command : Command) :
    (frameHeaderOf command).payloadLength.toNat = (commandPayload command).length := by
  have hle := (commandType command).payloadSize_le
  have hsize := length_commandPayload command
  exact UInt16.toNat_ofNat_of_lt' (by rw [UInt16.size]; omega)

theorem frameHeaderOf_valid (command : Command) :
    firstFailure (headerChecks (frameHeaderOf command)) = none := by
  rw [← validateHeader_eq]
  have hsize : (frameHeaderOf command).payloadLength =
      UInt16.ofNat (commandType command).payloadSize := by
    rw [← length_commandPayload]
    rfl
  have hflags : (frameHeaderOf command).flags = 0 := rfl
  have hmagic : (frameHeaderOf command).magic = kMagic := rfl
  have hversion : (frameHeaderOf command).version = kVersion := rfl
  rw [validateHeader, frameHeaderOf_type, hsize, hflags, hmagic, hversion]
  cases command <;> rfl

theorem decodePayload_command {command : Command} (h : Loggable command) :
    decodePayload (commandType command).value (commandPayload command) = .ok command := by
  rw [decodePayload, MessageType.fromValue_value]
  cases command with
  | submit order =>
    simp only [commandType, commandPayload, commandFields, decodeNewOrder_record h, decodedAs]
  | cancel order =>
    simp only [commandType, commandPayload, commandFields, decodeCancelOrder_record, decodedAs]
  | replace order =>
    simp only [commandType, commandPayload, commandFields, decodeReplaceOrder_record, decodedAs]

/-! ## Frames from the server -/

/-- `read_frame`, with the bytes behind the frame. There is none before all its bytes are there.
A length that exceeds the buffer would be undefined behaviour. -/
def readFrame (bytes : List UInt8) : Option (WireHeader × List UInt8) :=
  if bytes.length < kHeaderSize then none
  else
    match decodeHeader (bytes.take kHeaderSize) with
    | none => none
    | some header =>
      let rest := bytes.drop kHeaderSize
      if kMaxPayloadLength < header.payloadLength ∨ rest.length < header.payloadLength.toNat then none
      else some (header, rest.drop header.payloadLength.toNat)

def isTerminal (type : UInt8) : Bool :=
  type == MessageType.orderAccepted.value || type == MessageType.orderRejected.value ||
    type == MessageType.cancelAccepted.value || type == MessageType.cancelRejected.value ||
    type == MessageType.replaceAccepted.value || type == MessageType.replaceRejected.value

theorem isTerminal_value (type : MessageType) :
    isTerminal type.value = decide (type ∈ terminalTypes) := by
  cases type <;> decide

theorem decodeHeader_take {bytes : List UInt8} (h : kHeaderSize ≤ bytes.length) :
    decodeHeader (bytes.take kHeaderSize) = decodeHeader bytes := by
  obtain ⟨front, back, rfl, hfront⟩ : ∃ front back, bytes = front ++ back ∧
      front.length = kHeaderSize :=
    ⟨_, _, (List.take_append_drop kHeaderSize bytes).symm, List.length_take_of_le h⟩
  have hread : ∀ offset, offset + 2 ≤ kHeaderSize →
      read 2 offset (front ++ back) = read 2 offset front :=
    fun offset hle => read_append (hfront ▸ hle) back
  have hget : ∀ i, i < kHeaderSize → (front ++ back).getD i 0 = front.getD i 0 := by
    intro i hi
    rw [List.getD_append _ _ _ _ (hfront ▸ hi)]
  rw [List.take_left' hfront, decodeHeader, decodeHeader, if_neg (by omega), if_neg (by simp; omega)]
  simp only [hread 0 (by decide), hread 4 (by decide), hread 6 (by decide), hget 2 (by decide),
    hget 3 (by decide)]

/-- The client takes a frame of the server off the bytes that it has got. -/
theorem readFrame_framed {msg : OutboundMessage} {frame : List UInt8} (h : Framed msg frame)
    (rest : List UInt8) :
    ∃ header, readFrame (frame ++ rest) = some (header, rest) ∧ header.type = msg.type.value ∧
      isTerminal header.type = isTerminalFrame frame := by
  obtain ⟨header, hdecoded, hvalid, htype, -⟩ := h.header
  obtain ⟨size, hsize, hlength⟩ := h.length
  have hheader : kHeaderSize ≤ frame.length := by omega
  have hpayload : header.payloadLength = size ∧ ¬ kMaxPayloadLength < header.payloadLength := by
    unfold validateHeader at hvalid
    split_ifs at hvalid with _ _ hmax
    rw [htype, hsize] at hvalid
    dsimp only at hvalid
    split_ifs at hvalid with hne
    exact ⟨not_not.mp hne, hmax⟩
  refine ⟨header, ?_, htype, ?_⟩
  · have htake : decodeHeader ((frame ++ rest).take kHeaderSize) = some header := by
      rw [List.take_append_of_le_length hheader, decodeHeader_take hheader, hdecoded]
    rw [readFrame, if_neg (by simp; omega), htake]
    dsimp only
    rw [if_neg, List.drop_drop, hpayload.1, ← hlength, List.drop_left]
    rw [not_or, List.length_drop, List.length_append, hpayload.1]
    exact ⟨hpayload.1 ▸ hpayload.2, by omega⟩
  · rw [isTerminalFrame, frameType_of_framed h, Option.any_some, htype, isTerminal_value]

theorem readFrame_nil : readFrame [] = none := rfl

/-! ## The session's side -/

/-- Where the session stands in the frames of the commands `left`, of which the bytes `coming`
have not arrived. -/
inductive Reads (left : List Command) (coming : List UInt8) (v : ReaderView) : Prop
  | header (hr : v.reading = some .header)
      (hu : v.unread ++ coming = left.flatMap commandFrame)
  | payload (command : Command) (rest : List Command) (hleft : left = command :: rest)
      (hr : v.reading = some (.payload (frameHeaderOf command)))
      (hu : v.unread ++ coming = commandPayload command ++ rest.flatMap commandFrame)
  | stopped (hr : v.reading = none) (hu : v.unread ++ coming <:+ left.flatMap commandFrame)

/-- The session has pushed the commands `taken` and no other, and those in `left` are still to
come. -/
structure Aligned (taken left : List Command) (coming : List UInt8) (v : ReaderView) : Prop where
  pushed : v.pushed = taken.map fun c => messageOf v.sessionId (commandType c).value c
  increasing : left.Pairwise fun a b => a.sequence.value < b.sequence.value
  last : ∀ c ∈ left, v.lastSequence < c.sequence.value
  loggable : ∀ c ∈ left, Loggable c
  errors : v.errors = []
  reads : Reads left coming v

section Aligned

variable {taken left : List Command} {coming : List UInt8} {v v' : ReaderView}

theorem length_commandFrame (command : Command) :
    (commandFrame command).length = kHeaderSize + (commandType command).payloadSize := by
  rw [commandFrame, List.length_append, length_header, length_commandPayload]

theorem Reads.suffix (h : Reads left coming v) :
    v.unread ++ coming <:+ left.flatMap commandFrame := by
  cases h with
  | header hr hu => rw [hu]
  | payload command rest hleft hr hu =>
    rw [hu, hleft, List.flatMap_cons, commandFrame, List.append_assoc]
    exact List.suffix_append _ _
  | stopped hr hu => exact hu

/-- A header that has arrived is that of the next command. -/
theorem Reads.of_header {headerBytes rest : List UInt8} {header : WireHeader}
    (h : Reads left coming v) (hr : v.reading = some .header) (hu : v.unread = headerBytes ++ rest)
    (hlen : headerBytes.length = kHeaderSize) (hd : decodeHeader headerBytes = some header) :
    ∃ command tail, left = command :: tail ∧ header = frameHeaderOf command ∧
      rest ++ coming = commandPayload command ++ tail.flatMap commandFrame := by
  have hstream : headerBytes ++ (rest ++ coming) = left.flatMap commandFrame := by
    cases h with
    | header hr' hu' => rw [← hu', hu, List.append_assoc]
    | payload command rest' hleft hr' => simp [hr] at hr'
    | stopped hr' => simp [hr] at hr'
  cases left with
  | nil =>
    rw [List.flatMap_nil, List.append_eq_nil_iff] at hstream
    rw [hstream.1] at hlen
    cases hlen
  | cons command tail =>
    rw [List.flatMap_cons, commandFrame, List.append_assoc] at hstream
    obtain ⟨rfl, hrest⟩ := List.append_inj hstream (hlen.trans (length_header _).symm)
    have hdecoded := decodeHeader_record (frameHeaderOf command) []
    rw [List.append_nil, hd] at hdecoded
    exact ⟨command, tail, rfl, Option.some.inj hdecoded, hrest⟩

/-- So is a payload. -/
theorem Reads.of_payload {payload rest : List UInt8} {header : WireHeader}
    (h : Reads left coming v) (hr : v.reading = some (.payload header))
    (hu : v.unread = payload ++ rest) (hlen : payload.length = header.payloadLength.toNat) :
    ∃ command tail, left = command :: tail ∧ header = frameHeaderOf command ∧
      payload = commandPayload command ∧ rest ++ coming = tail.flatMap commandFrame := by
  cases h with
  | header hr' => simp [hr] at hr'
  | stopped hr' => simp [hr] at hr'
  | payload command tail hleft hr' hu' =>
    obtain rfl : frameHeaderOf command = header := by simpa [hr] using hr'.symm
    rw [hu, List.append_assoc] at hu'
    obtain ⟨rfl, hrest⟩ := List.append_inj hu' (hlen.trans (frameHeaderOf_length command))
    exact ⟨command, tail, hleft, rfl, rfl, hrest⟩

/-- The next command passes every check. -/
theorem Aligned.checks {tryPush : Nat → Bool} {command : Command} (h : Aligned taken left coming v)
    (hroom : ∀ n, tryPush n = true) (hmem : command ∈ left) :
    firstFailure (payloadChecks tryPush v.pushed.length v.lastSequence (frameHeaderOf command).type
      (commandPayload command)) = none := by
  rw [frameHeaderOf_type, payloadChecks_of_ok (decodePayload_command (h.loggable command hmem)),
    if_neg (Nat.not_le.mpr (h.last command hmem)), hroom]
  rfl

/-- Whatever a read of the session comes to, it takes the commands one by one, and rejects
none. -/
theorem Aligned.read {tryPush : Nat → Bool} {error : Bool} (h : Aligned taken left coming v)
    (hroom : ∀ n, tryPush n = true) (hstep : ReadStep tryPush error v v') :
    ∃ taken' left', taken' ++ left' = taken ++ left ∧ Aligned taken' left' coming v' := by
  cases hstep with
  | idle hr => exact ⟨taken, left, rfl, h⟩
  | failed reading hr hfail =>
    exact ⟨taken, left, rfl, { h with reads := .stopped rfl h.reads.suffix }⟩
  | headerRejected headerBytes rest header code hr hu hlen hd hc =>
    obtain ⟨command, tail, -, rfl, -⟩ := h.reads.of_header hr hu hlen hd
    rw [frameHeaderOf_valid] at hc
    cases hc
  | headerAccepted headerBytes rest header hr hu hlen hd hc =>
    obtain ⟨command, tail, hleft, rfl, hrest⟩ := h.reads.of_header hr hu hlen hd
    exact ⟨taken, left, rfl, { h with reads := .payload command tail hleft rfl hrest }⟩
  | frameRejected header payload rest code hr hu hlen hc =>
    obtain ⟨command, tail, rfl, rfl, rfl, -⟩ := h.reads.of_payload hr hu hlen
    rw [h.checks hroom List.mem_cons_self] at hc
    cases hc
  | enqueued header payload rest command hr hu hlen hd hc =>
    obtain ⟨command', tail, rfl, rfl, rfl, hrest⟩ := h.reads.of_payload hr hu hlen
    obtain ⟨hloggable, hloggables⟩ := List.forall_mem_cons.mp h.loggable
    obtain ⟨hlt, hincreasing⟩ := List.pairwise_cons.mp h.increasing
    rw [frameHeaderOf_type, decodePayload_command hloggable] at hd
    obtain rfl : command' = command := Except.ok.inj hd
    refine ⟨taken ++ [command'], tail, by simp, ?_, hincreasing, hlt, hloggables, h.errors,
      .header rfl hrest⟩
    rw [h.pushed, List.map_append]
    rfl

/-- More of what is coming has arrived. -/
theorem Aligned.deliver {bytes : List UInt8} (h : Aligned taken left (bytes ++ coming) v) :
    Aligned taken left coming { v with unread := v.unread ++ bytes } := by
  refine { h with reads := ?_ }
  cases h.reads with
  | header hr hu => exact .header hr (by rw [List.append_assoc, hu])
  | payload command rest hleft hr hu =>
    exact .payload command rest hleft hr (by rw [List.append_assoc, hu])
  | stopped hr hu => exact .stopped hr (by rwa [List.append_assoc])

/-- The session is not ahead of the client, who has still to send the commands behind the first
`sent`. -/
theorem Aligned.length_le {bytes : List UInt8} {sent : Nat}
    (h : Aligned taken left (bytes ++ ((taken ++ left).drop sent).flatMap commandFrame) v) :
    taken.length ≤ sent := by
  by_contra hlt
  rw [not_le] at hlt
  have hsuffix : ((taken ++ left).drop sent).flatMap commandFrame <:+ left.flatMap commandFrame :=
    (List.suffix_append _ _).trans ((List.suffix_append _ _).trans h.reads.suffix)
  have hle := hsuffix.length_le
  rw [List.drop_append_of_le_length hlt.le, List.flatMap_append, List.length_append,
    List.drop_eq_getElem_cons hlt, List.flatMap_cons, List.length_append, length_commandFrame] at hle
  have : kHeaderSize = 8 := rfl
  omega

end Aligned

end Benchmark

end LowLatencyExchange
