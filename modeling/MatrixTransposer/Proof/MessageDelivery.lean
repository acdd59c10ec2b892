import MatrixTransposer.ClientServerMessage
import MatrixTransposer.Proof.ClientFraming

/-!
# From one end of a connection to the other

A message is twenty bytes. Sent as they are, in whatever pieces they arrive, they come out on the
other side as the messages that were sent, in the order in which they were sent.
-/

namespace MatrixTransposer

open Lib

namespace ClientServerMessage

variable {message : ClientServerMessage} {bytes stream : List UInt8}
  {sent : List ClientServerMessage}

theorem value_ofValue (value : UInt32) : (MessageType.ofValue value).value = value := by
  unfold MessageType.ofValue
  split
  case isTrue h => exact h.symm
  case isFalse =>
    split
    case isTrue h => exact h.symm
    case isFalse =>
      split
      case isTrue h => exact h.symm
      case isFalse => rfl

theorem length_encode (message : ClientServerMessage) : message.encode.length = sizeInBytes := by
  rw [encode, length_recordBytes]
  rfl

theorem decode_encode (h : message.Proper) : decode message.encode = some message := by
  unfold Proper at h
  simp only [decode, encode, recordOfBytes_recordBytes, h]

/-- Twenty bytes are a message, and no other message has these bytes. -/
theorem exists_decode (h : bytes.length = sizeInBytes) :
    ∃ message, decode bytes = some message ∧ message.Proper ∧ message.encode = bytes := by
  have hdvd : 4 ∣ bytes.length := ⟨5, h⟩
  have hwords := recordBytes_recordOfBytes hdvd
  have hlength : (recordOfBytes bytes).length = 5 := by
    have htotal := length_recordBytes (recordOfBytes bytes)
    rw [hwords, h, sizeInBytes] at htotal
    omega
  obtain ⟨type, senderId, param1, param2, param3, hrecord⟩ :
      ∃ type senderId param1 param2 param3,
        recordOfBytes bytes = [type, senderId, param1, param2, param3] := by
    match recordOfBytes bytes, hlength with
    | [type, senderId, param1, param2, param3], _ =>
        exact ⟨type, senderId, param1, param2, param3, rfl⟩
  refine ⟨{ type := .ofValue type, senderId := senderId, param1 := param1, param2 := param2
            param3 := param3 }, ?_, ?_, ?_⟩
  · simp only [decode, hrecord]
  · rw [Proper, value_ofValue]
  · rw [encode, value_ofValue, ← hrecord, hwords]

theorem length_of_mem_encode (h : bytes ∈ sent.map encode) : bytes.length = sizeInBytes := by
  obtain ⟨message, -, rfl⟩ := List.mem_map.mp h
  exact length_encode message

/-- What is complete of a part of the stream is the first of the messages sent. -/
theorem decode_chunks (hproper : ∀ message ∈ sent, message.Proper)
    (hstream : stream <+: sent.flatMap encode) :
    (chunks sizeInBytes stream).map decode =
      (sent.take (stream.length / sizeInBytes)).map some := by
  rw [List.flatMap_def] at hstream
  rw [chunks_part (by decide) (fun m => length_of_mem_encode) hstream, ← List.map_take,
    List.map_map]
  apply List.map_congr_left
  intro message hmessage
  exact decode_encode (hproper message (List.mem_of_mem_take hmessage))

end ClientServerMessage

/-! ## To the server -/

namespace UnixSockIpcServer

open ClientServerMessage (decode encode sizeInBytes)

/-- A client sends its subscription; the thread reads seven bytes and then the other thirteen. -/
def sevenBytes : List Action :=
  [.connect, .thread .none, .thread (.events [{ fd := 3, hangUp := false, readable := true }]),
    .thread (.accepted 5), .thread .none,
    .arrive 5 (encode (.generateSubscribeMessage 7 6 6 1)), .thread .none,
    .thread (.events [{ fd := 5, hangUp := false, readable := true }]), .thread .none,
    .thread .none, .thread (.data 7), .thread .none, .thread (.data 13), .thread .none,
    .thread .none]

end UnixSockIpcServer

/-! ## To the client -/

namespace UnixSockIpcClient

open ClientServerMessage (decode encode sizeInBytes)

theorem mem_of_stopped {size baseFd : Nat} {s : State} {acts : List Action}
    (h : Observation.stopped ∈ (machine size baseFd).trace (observe size) s acts) :
    Action.stop ∈ acts := by
  obtain ⟨a, ha, s', hobserve⟩ := Machine.exists_of_mem_trace h
  cases a with
  | stop => exact ha
  | arrive | peerClose => simp [observe] at hobserve
  | thread reply =>
      cases reply with
      | data count =>
          simp only [observe] at hobserve
          split at hobserve <;> simp at hobserve
      | none =>
          simp only [observe] at hobserve
          split at hobserve <;> simp at hobserve
      | events | accepted | again | endOfStream | failed => simp [observe] at hobserve

/-- **The messages of the server arrive as they were sent**, in every run of the client's thread,
whatever fails and whoever closes: what the handler has been given is the messages sent, as far as
their bytes have been received, in order and without a gap. Only the destructor can add a message
that is not complete; there is at most one, and the thread does not look at the socket again. -/
theorem messages_delivered_to_client {baseFd : Nat} {s₀ s : State} {acts : List Action}
    (hinit : (machine sizeInBytes baseFd).init s₀)
    (hrun : (machine sizeInBytes baseFd).exec s₀ acts = some s)
    (sent : List ClientServerMessage) (hproper : ∀ message ∈ sent, message.Proper) :
    let os := (machine sizeInBytes baseFd).trace (observe sizeInBytes) s₀ acts
    arrivedBytes os <+: sent.flatMap encode → ∃ torn : List (List UInt8),
      (handledMessages os ++ pending sizeInBytes s).map decode =
        (sent.take ((receivedBytes os).length / sizeInBytes)).map some ++ torn.map decode ∧
      torn.length ≤ 1 ∧
      (torn ≠ [] → Action.stop ∈ acts ∧
        (s.pc = .handle ∨ s.pc = .loop ∧ s.running = false ∨ s.pc = .exited)) := by
  obtain ⟨buffer, rfl⟩ := hinit
  intro os hsent
  have hsize : 0 < sizeInBytes := by decide
  have h : Framing sizeInBytes s ([] ++ os) :=
    Machine.exec_trace_invariant (fun s os a t => framing_step hsize)
      (framing_initial sizeInBytes buffer) hrun
  rw [List.nil_append] at h
  obtain ⟨whole, part, torn, hreceived, hwhole, hhandled, hfacts, htorn⟩ := h.framed
  have hprefix : receivedBytes os <+: sent.flatMap encode := by
    apply List.IsPrefix.trans _ hsent
    rw [h.stream]
    exact List.prefix_append _ _
  have hpart : part.length < sizeInBytes ∧ torn.length ≤ 1 := hfacts.length hsize
  have hchunks : chunks sizeInBytes (receivedBytes os) = whole := by
    rw [hreceived, chunks_flatten_append hsize hwhole, chunks_of_length_lt hpart.1,
      List.append_nil]
  refine ⟨torn, ?_, hpart.2, ?_⟩
  · rw [hhandled, List.map_append, ← hchunks,
      ClientServerMessage.decode_chunks hproper hprefix]
  · exact fun hne => ⟨mem_of_stopped (htorn hne), hfacts.pc_of_torn hne⟩

/-- The server answers twice; the destructor stops the thread in the middle of the second answer. -/
def stoppedAnswer : List Action :=
  [.arrive (encode (.generateSubscribeResponseMessage 1 7 64 64) ++
      encode (.generateSubscribeResponseMessage 1 7 64 64)),
    .thread .none, .thread (.events [{ fd := 3, hangUp := false, readable := true }]),
    .thread .none, .thread .none, .thread (.data 20), .thread .none, .thread .none, .thread .none,
    .thread (.events [{ fd := 3, hangUp := false, readable := true }]), .thread .none,
    .thread .none, .thread (.data 5), .stop, .thread .none, .thread .none, .thread .none]

theorem messages_delivered_to_client_stopped :
    ∃ (s : State) (torn : List (List UInt8)),
      (machine sizeInBytes 3).exec (initial fun _ => 0) stoppedAnswer = some s ∧
      (handledMessages ((machine sizeInBytes 3).trace (observe sizeInBytes) (initial fun _ => 0)
        stoppedAnswer) ++ pending sizeInBytes s).map decode =
          [some (.generateSubscribeResponseMessage 1 7 64 64)] ++ torn.map decode ∧
        torn.length ≤ 1 := by
  let answer : ClientServerMessage := .generateSubscribeResponseMessage 1 7 64 64
  let sent : List ClientServerMessage := [answer, answer]
  have hruns : ((machine sizeInBytes 3).exec (initial fun _ => 0) stoppedAnswer).isSome = true := by
    decide +kernel
  have hproper : ∀ message ∈ sent, message.Proper := by
    intro message hmessage
    have heq : message = answer := by simpa [sent] using hmessage
    rw [heq]
    exact (by decide : MessageType.ofValue 2 = .subscribeResponse)
  have hsent : arrivedBytes ((machine sizeInBytes 3).trace (observe sizeInBytes)
      (initial fun _ => 0) stoppedAnswer) <+: sent.flatMap encode := by decide +kernel
  have hreceived : (receivedBytes ((machine sizeInBytes 3).trace (observe sizeInBytes)
      (initial fun _ => 0) stoppedAnswer)).length = 25 := by decide +kernel
  obtain ⟨s, hrun⟩ := Option.isSome_iff_exists.mp hruns
  obtain ⟨torn, hdelivered, hlength, -⟩ :=
    messages_delivered_to_client ⟨_, rfl⟩ hrun sent hproper hsent
  rw [hreceived] at hdelivered
  exact ⟨s, torn, hrun, hdelivered, hlength⟩

end UnixSockIpcClient

end MatrixTransposer
