import LowLatencyExchange.Engine.Frames
import LowLatencyExchange.Engine.Groups
import LowLatencyExchange.Gateway.Sending
import Mathlib.Tactic

/-!
# Terminal responses

The messages that end the response groups, among the messages of the engine and among the
frames of a socket, where the type in the header tells them.
-/
namespace LowLatencyExchange

open Protocol MatchingEngineService TcpSession

/-- What the header of a frame says of its type. -/
def frameType (frame : List UInt8) : Option MessageType :=
  (decodeHeader frame).bind fun header => MessageType.fromValue header.type

def isTerminalFrame (frame : List UInt8) : Bool :=
  (frameType frame).any fun type => type ∈ terminalTypes

theorem frameType_of_framed {msg : OutboundMessage} {frame : List UInt8} (h : Framed msg frame) :
    frameType frame = some msg.type := by
  obtain ⟨header, hdecoded, -, htype, -⟩ := h.header
  rw [frameType, hdecoded, Option.bind_some, htype, MessageType.fromValue_value]

theorem isTerminalFrame_serializeOutbound {msg : OutboundMessage} (h : Sendable msg) :
    isTerminalFrame (serializeOutbound msg) = decide (msg.type ∈ terminalTypes) := by
  rw [isTerminalFrame, frameType_of_framed (serializeOutbound_framed h), Option.any_some]

theorem isTerminalFrame_of_error {frame : QueuedFrame} (h : IsErrorFrame frame) :
    isTerminalFrame frame.bytes = false := by
  obtain ⟨code, type, rfl⟩ := h
  rw [isTerminalFrame, frameType_of_framed (makeErrorFrame_framed code type), Option.any_some]
  rfl

/-- The messages to a session, as the engine pushes them. -/
def repliesTo (sessionId : UInt64) (x : Served) : List OutboundMessage :=
  if x.message.sessionId = sessionId then x.group else x.fills sessionId

/-- A group has its terminal response, and a fill report is none. -/
theorem filter_repliesTo (sessionId : UInt64) (x : Served) :
    (repliesTo sessionId x).filter (fun msg => msg.type ∈ terminalTypes) =
      if x.message.sessionId = sessionId then [x.terminal] else [] := by
  have hexecution := execution_not_mem_terminalTypes
  have hterminal : x.terminal.type ∈ terminalTypes := terminal_mem_terminalTypes _ _ _
  unfold repliesTo
  split_ifs
  · rw [Served.group, List.filter_append, List.filter_singleton,
      decide_eq_true hterminal, List.filter_map]
    simp [ownReport, Function.comp_def, hexecution]
  · rw [Served.fills, List.filter_map]
    simp [fillReport, Function.comp_def, hexecution]

theorem filter_served (sessionId : UInt64) (xs : List Served) :
    (xs.flatMap (repliesTo sessionId)).filter (fun msg => msg.type ∈ terminalTypes) =
      (xs.filter fun x => x.message.sessionId = sessionId).map Served.terminal := by
  induction xs with
  | nil => rfl
  | cons x xs ih =>
    rw [List.flatMap_cons, List.filter_append, ih, filter_repliesTo, List.filter_cons]
    by_cases hown : x.message.sessionId = sessionId <;> simp [hown]

theorem map_message_servedFrom (earlier messages : List InboundMessage) :
    (servedFrom earlier messages).map Served.message = messages := by
  induction messages generalizing earlier with
  | nil => rfl
  | cons message messages ih => rw [servedFrom, List.map_cons, ih]

theorem map_message_served (messages : List InboundMessage) :
    (served messages).map Served.message = messages :=
  map_message_servedFrom [] messages

theorem earlier_subset {earlier messages : List InboundMessage} {x : Served}
    (h : x ∈ servedFrom earlier messages) : x.earlier ⊆ earlier ++ messages := by
  induction messages generalizing earlier with
  | nil => cases h
  | cons message messages ih =>
    rcases List.mem_cons.mp h with rfl | h
    · exact List.subset_append_left _ _
    · have hsub := ih h
      rwa [List.append_assoc, List.singleton_append] at hsub

/-- The engine answers none but the sessions whose messages it has processed. -/
theorem GroupsInv.addressed {s : MatchingEngineService} {processed : List InboundMessage}
    (h : GroupsInv s processed) (hnonzero : ∀ message ∈ processed, message.sessionId ≠ 0)
    {msg : OutboundMessage} (hmsg : msg ∈ s.outbound) :
    ∃ message ∈ processed, message.sessionId = msg.sessionId := by
  have hfiltered : msg ∈ s.outbound.filter (fun m => m.sessionId = msg.sessionId) :=
    List.mem_filter.mpr ⟨hmsg, by simp⟩
  rw [h.outbound hnonzero] at hfiltered
  obtain ⟨x, hx, hreply⟩ := List.mem_flatMap.mp hfiltered
  have hmessage : x.message ∈ processed := by
    rw [← map_message_served processed]
    exact List.mem_map_of_mem hx
  split_ifs at hreply with hown
  · exact ⟨x.message, hmessage, hown⟩
  · obtain ⟨exec, hexec, -⟩ := List.mem_map.mp hreply
    have hholder : holder x.earlier exec.restingOrderId = some msg.sessionId := by
      simpa using (List.mem_filter.mp hexec).2
    obtain ⟨m, hm, hid⟩ := holder_mem hholder
    have hsub := earlier_subset hx
    rw [List.nil_append] at hsub
    exact ⟨m, hsub hm, hid⟩

end LowLatencyExchange
