import MatrixTransposer.UnixSockIpcClient
import MatrixTransposer.Proof.MessageFraming

/-!
# The messages of `ClientThread`

The client's handler is given the complete messages of the stream, one after the other. Only the
destructor makes an exception: once it has stopped the thread, a message that is being assembled is
handed on as far as it has come, and it is the last.
-/

namespace MatrixTransposer.UnixSockIpcClient

open Lib
open UnixSockIpcServer (Event Reply writeBuffer assembled length_assembled assembled_writeBuffer)

variable {size baseFd : Nat} {s t : State} {a : Action} {reply : Reply} {os : List Observation}

/-! ## The steps of the thread -/

inductive ThreadMove (size baseFd : Nat) (s : State) : Reply → State → Prop where
  | enter (hpc : s.pc = .loop) (hrunning : s.running = true) :
      ThreadMove size baseFd s .none { s with pc := .poll }
  | leave (hpc : s.pc = .loop) (hrunning : s.running = false) :
      ThreadMove size baseFd s .none { s with pc := .exited }
  | timeout (hpc : s.pc = .poll) : ThreadMove size baseFd s (.events []) { s with pc := .loop }
  | event {event : Event} (hpc : s.pc = .poll) (hevent : Deliverable baseFd s event) :
      ThreadMove size baseFd s (.events [event]) { s with pc := .dispatch event }
  | pollFailed (hpc : s.pc = .poll) :
      ThreadMove size baseFd s .failed { s with running := false, pc := .exited }
  | hangUp {event : Event} (hpc : s.pc = .dispatch event) :
      ThreadMove size baseFd s .none s.dropConnection
  | readable {event : Event} (hpc : s.pc = .dispatch event) :
      ThreadMove size baseFd s .none { s with pc := .assemble 0 }
  | ignored {event : Event} (hpc : s.pc = .dispatch event) :
      ThreadMove size baseFd s .none { s with pc := .loop }
  | more {totalRead : Nat} (hpc : s.pc = .assemble totalRead) (hlt : totalRead < size) :
      ThreadMove size baseFd s .none { s with pc := .recv totalRead }
  | done {totalRead : Nat} (hpc : s.pc = .assemble totalRead)
      (hdone : size ≤ totalRead ∨ s.running = false) :
      ThreadMove size baseFd s .none { s with pc := .handle }
  | data {totalRead count : Nat} (hpc : s.pc = .recv totalRead) (hcount : 0 < count)
      (hroom : count ≤ size - totalRead) (hunread : count ≤ s.connection.unread.length) :
      ThreadMove size baseFd s (.data count)
        { s with
          connection := { s.connection with unread := s.connection.unread.drop count }
          buffer := writeBuffer s.buffer totalRead (s.connection.unread.take count)
          pc := .assemble (totalRead + count) }
  | nothing {totalRead : Nat} {reply : Reply} (hpc : s.pc = .recv totalRead)
      (hreply : reply = .again ∨ reply = .endOfStream) :
      ThreadMove size baseFd s reply { s with pc := .assemble totalRead }
  | lost {totalRead : Nat} (hpc : s.pc = .recv totalRead) :
      ThreadMove size baseFd s .failed s.dropConnection
  | handled (hpc : s.pc = .handle) : ThreadMove size baseFd s .none { s with pc := .loop }

theorem of_silentStep {r : State} (h : silentStep r reply = some t) : reply = .none ∧ t = r := by
  cases reply <;> cases h
  exact ⟨rfl, rfl⟩

theorem threadMove_of_recvStep {totalRead : Nat} (hpc : s.pc = .recv totalRead)
    (h : recvStep size s totalRead reply = some t) : ThreadMove size baseFd s reply t := by
  cases reply with
  | data count =>
      obtain ⟨⟨hcount, hroom, hunread⟩, heq⟩ := Option.ite_none_right_eq_some.mp h
      cases heq
      exact .data hpc hcount hroom hunread
  | again =>
      cases h
      exact .nothing hpc (Or.inl rfl)
  | endOfStream =>
      obtain ⟨-, heq⟩ := Option.ite_none_right_eq_some.mp h
      cases heq
      exact .nothing hpc (Or.inr rfl)
  | failed =>
      cases h
      exact .lost hpc
  | none | events | accepted => cases h

theorem threadMove_of_threadStep (h : threadStep size baseFd s reply = some t) :
    ThreadMove size baseFd s reply t := by
  unfold threadStep at h
  split at h
  case h_1 hpc =>
    obtain ⟨rfl, rfl⟩ := of_silentStep h
    split
    case isTrue hrunning => exact .enter hpc hrunning
    case isFalse hrunning => exact .leave hpc (by simpa using hrunning)
  case h_2 hpc =>
    unfold pollStep at h
    split at h
    case h_1 =>
      cases h
      exact .timeout hpc
    case h_2 event =>
      obtain ⟨hevent, heq⟩ := Option.ite_none_right_eq_some.mp h
      cases heq
      exact .event hpc hevent
    case h_3 =>
      cases h
      exact .pollFailed hpc
    case h_4 => cases h
  case h_3 event hpc =>
    obtain ⟨rfl, rfl⟩ := of_silentStep h
    split
    case isTrue => exact .hangUp hpc
    case isFalse =>
      split
      case isTrue => exact .readable hpc
      case isFalse => exact .ignored hpc
  case h_4 totalRead hpc =>
    obtain ⟨rfl, rfl⟩ := of_silentStep h
    split
    case isTrue hmore => exact .more hpc hmore.1
    case isFalse hdone =>
      apply ThreadMove.done hpc
      cases hrunning : s.running with
      | false => exact Or.inr rfl
      | true => exact Or.inl (Nat.le_of_not_lt fun hlt => hdone ⟨hlt, hrunning⟩)
  case h_5 totalRead hpc => exact threadMove_of_recvStep hpc h
  case h_6 hpc =>
    obtain ⟨rfl, rfl⟩ := of_silentStep h
    exact .handled hpc
  case h_7 => cases h

/-! ## What the observations add up to -/

@[simp] theorem arrivedBytes_append (os os' : List Observation) :
    arrivedBytes (os ++ os') = arrivedBytes os ++ arrivedBytes os' :=
  List.flatMap_append

@[simp] theorem receivedBytes_append (os os' : List Observation) :
    receivedBytes (os ++ os') = receivedBytes os ++ receivedBytes os' :=
  List.flatMap_append

@[simp] theorem handledMessages_append (os os' : List Observation) :
    handledMessages (os ++ os') = handledMessages os ++ handledMessages os' :=
  List.flatMap_append

theorem of_arrived (bytes : List UInt8) :
    arrivedBytes [.arrived bytes] = bytes ∧ receivedBytes [.arrived bytes] = [] ∧
      handledMessages [.arrived bytes] = [] :=
  ⟨List.append_nil bytes, rfl, rfl⟩

theorem of_received (bytes : List UInt8) :
    arrivedBytes [.received bytes] = [] ∧ receivedBytes [.received bytes] = bytes ∧
      handledMessages [.received bytes] = [] :=
  ⟨rfl, List.append_nil bytes, rfl⟩

theorem of_handled (m : List UInt8) :
    arrivedBytes [.handled m] = [] ∧ receivedBytes [.handled m] = [] ∧
      handledMessages [.handled m] = [m] :=
  ⟨rfl, rfl, rfl⟩

theorem of_stopped :
    arrivedBytes [.stopped] = [] ∧ receivedBytes [.stopped] = [] ∧
      handledMessages [.stopped] = [] :=
  ⟨rfl, rfl, rfl⟩

/-- The message that the thread is about to hand to the handler. -/
def pending (size : Nat) (s : State) : List (List UInt8) :=
  match s.pc with
  | .assemble totalRead => if totalRead = size then [message size s] else []
  | .handle => [message size s]
  | _ => []

/-- What is left of the stream after its complete messages, and the message that was not complete
when it was handed on. -/
def PcFacts (size : Nat) (s : State) (part : List UInt8) (torn : List (List UInt8)) : Prop :=
  match s.pc with
  | .poll | .dispatch _ => part = [] ∧ torn = []
  | .assemble totalRead =>
      torn = [] ∧ (totalRead < size ∧ part = assembled s.buffer totalRead ∨
        totalRead = size ∧ part = [])
  | .recv totalRead => torn = [] ∧ totalRead < size ∧ part = assembled s.buffer totalRead
  | .loop | .handle =>
      part = [] ∧ torn = [] ∨ s.running = false ∧ part.length < size ∧ torn.length ≤ 1
  | .exited => part.length < size ∧ torn.length ≤ 1

structure Framing (size : Nat) (s : State) (os : List Observation) : Prop where
  stopped : s.running = false → Observation.stopped ∈ os ∨ s.pc = .exited
  stream : arrivedBytes os = receivedBytes os ++ s.connection.unread
  framed : ∃ whole part torn, receivedBytes os = whole.flatten ++ part ∧
    (∀ m ∈ whole, m.length = size) ∧ handledMessages os ++ pending size s = whole ++ torn ∧
      PcFacts size s part torn ∧ (torn ≠ [] → Observation.stopped ∈ os)

/-! ## The invariant -/

/-- What changes nothing of the buffer or of where the thread stands. -/
theorem PcFacts.congr {part : List UInt8} {torn : List (List UInt8)} (h : PcFacts size s part torn)
    (hpc : t.pc = s.pc) (hbuffer : t.buffer = s.buffer)
    (hrunning : s.running = false → t.running = false) : PcFacts size t part torn := by
  unfold PcFacts at h ⊢
  rw [hpc]
  cases hcase : s.pc with
  | poll | dispatch | exited =>
      rw [hcase] at h
      exact h
  | assemble | recv =>
      rw [hcase] at h
      rw [hbuffer]
      exact h
  | loop | handle =>
      rw [hcase] at h
      exact h.imp_right fun hstop => ⟨hrunning hstop.1, hstop.2⟩

theorem pending_congr (hpc : t.pc = s.pc) (hbuffer : t.buffer = s.buffer) :
    pending size t = pending size s := by
  rw [pending, pending, message, message, hpc, hbuffer]

theorem Framing.arrive (h : Framing size s os) (bytes : List UInt8)
    (ht : t = { s with connection := { s.connection with
      unread := s.connection.unread ++ bytes } }) :
    Framing size t (os ++ [.arrived bytes]) := by
  subst ht
  obtain ⟨whole, part, torn, hreceived, hwhole, hhandled, hfacts, htorn⟩ := h.framed
  obtain ⟨harrivedOne, hreceivedOne, hhandledOne⟩ := of_arrived bytes
  refine ⟨?_, ?_, whole, part, torn, ?_, hwhole, ?_, hfacts.congr rfl rfl id, ?_⟩
  · exact fun hfalse => (h.stopped hfalse).imp_left (List.mem_append_left _)
  · rw [arrivedBytes_append, receivedBytes_append, harrivedOne, hreceivedOne, h.stream,
      List.append_nil, List.append_assoc]
  · rw [receivedBytes_append, hreceivedOne, List.append_nil, hreceived]
  · rw [handledMessages_append, hhandledOne, List.append_nil, ← hhandled]
    exact congrArg (handledMessages os ++ ·) (pending_congr rfl rfl)
  · exact fun hne => List.mem_append_left _ (htorn hne)

theorem Framing.stop (h : Framing size s os) :
    Framing size { s with running := false } (os ++ [.stopped]) := by
  obtain ⟨whole, part, torn, hreceived, hwhole, hhandled, hfacts, htorn⟩ := h.framed
  obtain ⟨harrivedOne, hreceivedOne, hhandledOne⟩ := of_stopped
  have hmem : Observation.stopped ∈ os ++ [.stopped] := List.mem_append_right _ List.mem_cons_self
  refine ⟨fun _ => Or.inl hmem, ?_, whole, part, torn, ?_, hwhole, ?_,
    hfacts.congr rfl rfl fun _ => rfl, fun _ => hmem⟩
  · rw [arrivedBytes_append, receivedBytes_append, harrivedOne, hreceivedOne, h.stream,
      List.append_nil, List.append_nil]
  · rw [receivedBytes_append, hreceivedOne, List.append_nil, hreceived]
  · rw [handledMessages_append, hhandledOne, List.append_nil, ← hhandled]
    exact congrArg (handledMessages os ++ ·) (pending_congr rfl rfl)

/-- A step of the thread that receives nothing and hands nothing on. -/
theorem Framing.quiet (h : Framing size s os) (hexited : s.pc ≠ .exited)
    (hstopped : t.running = false → s.running = false ∨ t.pc = .exited)
    (hconnection : t.connection = s.connection)
    (hpc : ∀ part torn, PcFacts size s part torn →
      pending size t = pending size s ∧ PcFacts size t part torn) : Framing size t os := by
  obtain ⟨whole, part, torn, hreceived, hwhole, hhandled, hfacts, htorn⟩ := h.framed
  obtain ⟨hpending, hfacts'⟩ := hpc part torn hfacts
  refine ⟨?_, ?_, whole, part, torn, hreceived, hwhole, ?_, hfacts', htorn⟩
  · intro hfalse
    rcases hstopped hfalse with hrunning | hleft
    · exact Or.inl ((h.stopped hrunning).resolve_right hexited)
    · exact Or.inr hleft
  · rw [hconnection]
    exact h.stream
  · rw [hpending]
    exact hhandled

/-- The loop is left before the message is complete. -/
theorem Framing.tear {totalRead : Nat} (h : Framing size s os) (hpc : s.pc = .assemble totalRead)
    (hrunning : s.running = false) (hlt : totalRead < size) :
    Framing size { s with pc := .handle } os := by
  obtain ⟨whole, part, torn, hreceived, hwhole, hhandled, hfacts, -⟩ := h.framed
  have hmem : Observation.stopped ∈ os := by
    rcases h.stopped hrunning with hmem | hexited
    · exact hmem
    · cases hpc.symm.trans hexited
  simp only [PcFacts, hpc] at hfacts
  obtain ⟨rfl, ⟨-, hpart⟩ | ⟨heq, -⟩⟩ := hfacts
  · simp only [pending, hpc, if_neg (Nat.ne_of_lt hlt), List.append_nil] at hhandled
    refine ⟨fun _ => Or.inl hmem, h.stream, whole, part, [message size s], hreceived, hwhole, ?_,
      ?_, fun _ => hmem⟩
    · rw [hhandled]
      rfl
    · right
      rw [hpart, length_assembled]
      exact ⟨hrunning, hlt, Nat.le_refl 1⟩
  · exact absurd heq (Nat.ne_of_lt hlt)

theorem Framing.data {totalRead count : Nat} (h : Framing size s os)
    (hpc : s.pc = .recv totalRead) (hroom : count ≤ size - totalRead)
    (hunread : count ≤ s.connection.unread.length) :
    Framing size { s with
      connection := { s.connection with unread := s.connection.unread.drop count }
      buffer := writeBuffer s.buffer totalRead (s.connection.unread.take count)
      pc := .assemble (totalRead + count) }
        (os ++ [.received (s.connection.unread.take count)]) := by
  obtain ⟨whole, part, torn, hreceived, hwhole, hhandled, hfacts, htorn⟩ := h.framed
  obtain ⟨harrivedOne, hreceivedOne, hhandledOne⟩ := of_received (s.connection.unread.take count)
  simp only [PcFacts, hpc] at hfacts
  obtain ⟨rfl, hlt, hpart⟩ := hfacts
  simp only [pending, hpc, List.append_nil] at hhandled
  have hlength : (s.connection.unread.take count).length = count := List.length_take_of_le hunread
  have hassembled : part ++ s.connection.unread.take count =
      assembled (writeBuffer s.buffer totalRead (s.connection.unread.take count))
        (totalRead + count) := by
    have hwrite := assembled_writeBuffer s.buffer totalRead (s.connection.unread.take count)
    rw [hlength] at hwrite
    rw [hpart, hwrite]
  have hstopped : s.running = false →
      Observation.stopped ∈ os ++ [.received (s.connection.unread.take count)] := by
    intro hfalse
    rcases h.stopped hfalse with hmem | hexited
    · exact List.mem_append_left _ hmem
    · cases hpc.symm.trans hexited
  have hstream : arrivedBytes (os ++ [.received (s.connection.unread.take count)]) =
      receivedBytes (os ++ [.received (s.connection.unread.take count)]) ++
        s.connection.unread.drop count := by
    rw [arrivedBytes_append, receivedBytes_append, harrivedOne, hreceivedOne, h.stream,
      List.append_nil, List.append_assoc, List.take_append_drop]
  have hbytes : receivedBytes (os ++ [.received (s.connection.unread.take count)]) =
      whole.flatten ++ (part ++ s.connection.unread.take count) := by
    rw [receivedBytes_append, hreceivedOne, hreceived, List.append_assoc]
  by_cases hfull : totalRead + count = size
  · -- the message is complete
    refine ⟨fun hfalse => Or.inl (hstopped hfalse), hstream,
      whole ++ [part ++ s.connection.unread.take count], [], [], ?_, ?_, ?_, ?_, fun hne => ?_⟩
    · rw [hbytes]
      simp
    · intro m hm
      rcases List.mem_append.mp hm with hold | hnew
      · exact hwhole m hold
      · rw [List.mem_singleton.mp hnew, hassembled, length_assembled, hfull]
    · rw [handledMessages_append, hhandledOne, List.append_nil, hhandled, hassembled, List.append_nil]
      simp only [pending, hfull, if_true]
      rfl
    · exact ⟨rfl, Or.inr ⟨hfull, rfl⟩⟩
    · exact absurd rfl hne
  · refine ⟨fun hfalse => Or.inl (hstopped hfalse), hstream, whole,
      part ++ s.connection.unread.take count, [], hbytes, hwhole, ?_, ?_, fun hne => ?_⟩
    · rw [handledMessages_append, hhandledOne, List.append_nil, hhandled]
      simp only [pending, hfull, if_false]
    · exact ⟨rfl, Or.inl ⟨by omega, hassembled⟩⟩
    · exact absurd rfl hne

theorem Framing.handled (h : Framing size s os) (hpc : s.pc = .handle) :
    Framing size { s with pc := .loop } (os ++ [.handled (message size s)]) := by
  obtain ⟨whole, part, torn, hreceived, hwhole, hhandled, hfacts, htorn⟩ := h.framed
  obtain ⟨harrivedOne, hreceivedOne, hhandledOne⟩ := of_handled (message size s)
  simp only [pending, hpc] at hhandled
  refine ⟨?_, ?_, whole, part, torn, ?_, hwhole, ?_, ?_, ?_⟩
  · intro hfalse
    rcases h.stopped hfalse with hmem | hexited
    · exact Or.inl (List.mem_append_left _ hmem)
    · cases hpc.symm.trans hexited
  · rw [arrivedBytes_append, receivedBytes_append, harrivedOne, hreceivedOne, List.append_nil,
      List.append_nil]
    exact h.stream
  · rw [receivedBytes_append, hreceivedOne, List.append_nil, hreceived]
  · rw [handledMessages_append, hhandledOne]
    exact (List.append_nil _).trans hhandled
  · simp only [PcFacts, hpc] at hfacts
    exact hfacts
  · exact fun hne => List.mem_append_left _ (htorn hne)

theorem Framing.thread (hsize : 0 < size) (h : Framing size s os)
    (hmove : ThreadMove size baseFd s reply t) :
    Framing size t (os ++ observe size s (.thread reply)) := by
  cases hmove with
  | data hpc _ hroom hunread =>
      simp only [observe, hpc]
      exact h.data hpc hroom hunread
  | handled hpc =>
      simp only [observe, hpc]
      exact h.handled hpc
  | @done totalRead hpc hdone =>
      simp only [observe, hpc, List.append_nil]
      by_cases hlt : totalRead < size
      · exact h.tear hpc (hdone.resolve_left (Nat.not_le_of_lt hlt)) hlt
      · refine h.quiet (by simp [hpc]) Or.inl rfl ?_
        intro part torn hfacts
        simp only [PcFacts, hpc] at hfacts ⊢
        obtain ⟨htorn, ⟨hlt', -⟩ | ⟨heq, hpart⟩⟩ := hfacts
        · exact absurd hlt' hlt
        · refine ⟨?_, Or.inl ⟨hpart, htorn⟩⟩
          simp only [pending, hpc, heq, if_true]
          rfl
  | enter hpc hrunning =>
      simp only [observe, hpc, List.append_nil]
      refine h.quiet (by simp [hpc]) Or.inl rfl ?_
      intro part torn hfacts
      simp only [PcFacts, hpc, hrunning] at hfacts ⊢
      exact ⟨by simp only [pending, hpc], by simpa using hfacts⟩
  | leave hpc =>
      simp only [observe, hpc, List.append_nil]
      refine h.quiet (by simp [hpc]) Or.inl rfl ?_
      intro part torn hfacts
      simp only [PcFacts, hpc] at hfacts ⊢
      refine ⟨by simp only [pending, hpc], ?_⟩
      rcases hfacts with ⟨rfl, rfl⟩ | ⟨-, hstop⟩
      · exact ⟨hsize, Nat.zero_le 1⟩
      · exact hstop
  | timeout hpc | event hpc | ignored hpc =>
      simp only [observe, hpc, List.append_nil]
      refine h.quiet (by simp [hpc]) Or.inl rfl ?_
      intro part torn hfacts
      simp only [PcFacts, hpc] at hfacts ⊢
      exact ⟨by simp only [pending, hpc], by simp [hfacts]⟩
  | pollFailed hpc | hangUp hpc =>
      simp only [observe, hpc, List.append_nil]
      refine h.quiet (by simp [hpc]) (fun _ => Or.inr rfl) rfl ?_
      intro part torn hfacts
      simp only [PcFacts, hpc] at hfacts
      obtain ⟨rfl, rfl⟩ := hfacts
      exact ⟨by simp only [pending, hpc, State.dropConnection], hsize, Nat.zero_le 1⟩
  | readable hpc =>
      simp only [observe, hpc, List.append_nil]
      refine h.quiet (by simp [hpc]) Or.inl rfl ?_
      intro part torn hfacts
      simp only [PcFacts, hpc] at hfacts
      obtain ⟨rfl, rfl⟩ := hfacts
      exact ⟨by simp only [pending, hpc, if_neg (Nat.ne_of_lt hsize)], rfl,
        Or.inl ⟨hsize, rfl⟩⟩
  | more hpc hlt =>
      simp only [observe, hpc, List.append_nil]
      refine h.quiet (by simp [hpc]) Or.inl rfl ?_
      intro part torn hfacts
      simp only [PcFacts, hpc] at hfacts
      obtain ⟨htorn, ⟨-, hpart⟩ | ⟨heq, -⟩⟩ := hfacts
      · exact ⟨by simp only [pending, hpc, if_neg (Nat.ne_of_lt hlt)], htorn, hlt, hpart⟩
      · exact absurd heq (Nat.ne_of_lt hlt)
  | @nothing totalRead reply hpc hreply =>
      have hobserve : observe size s (.thread reply) = [] := by
        rcases hreply with rfl | rfl <;> rfl
      rw [hobserve, List.append_nil]
      refine h.quiet (by simp [hpc]) Or.inl rfl ?_
      intro part torn hfacts
      simp only [PcFacts, hpc] at hfacts
      obtain ⟨htorn, hlt, hpart⟩ := hfacts
      exact ⟨by simp only [pending, hpc, if_neg (Nat.ne_of_lt hlt)], htorn, Or.inl ⟨hlt, hpart⟩⟩
  | lost hpc =>
      simp only [observe, List.append_nil]
      refine h.quiet (by simp [hpc]) (fun _ => Or.inr rfl) rfl ?_
      intro part torn hfacts
      simp only [PcFacts, hpc] at hfacts
      obtain ⟨rfl, hlt, rfl⟩ := hfacts
      refine ⟨by simp only [pending, hpc, State.dropConnection], ?_, Nat.zero_le 1⟩
      rwa [length_assembled]

theorem framing_step (hsize : 0 < size) (h : Framing size s os)
    (hstep : step size baseFd s a = some t) : Framing size t (os ++ observe size s a) := by
  cases a with
  | arrive bytes =>
      obtain ⟨-, heq⟩ := Option.ite_none_left_eq_some.mp hstep
      exact h.arrive bytes (Option.some.inj heq).symm
  | peerClose =>
      cases hstep
      simp only [observe, List.append_nil]
      obtain ⟨whole, part, torn, hreceived, hwhole, hhandled, hfacts, htorn⟩ := h.framed
      exact ⟨h.stopped, h.stream, whole, part, torn, hreceived, hwhole, hhandled, hfacts, htorn⟩
  | stop =>
      cases hstep
      exact h.stop
  | thread reply => exact h.thread hsize (threadMove_of_threadStep hstep)

theorem framing_initial (size : Nat) (buffer : Nat → UInt8) : Framing size (initial buffer) [] where
  stopped hfalse := by cases hfalse
  stream := rfl
  framed := ⟨[], [], [], rfl, by simp, rfl, Or.inl ⟨rfl, rfl⟩, fun hne => absurd rfl hne⟩

theorem PcFacts.length {part : List UInt8} {torn : List (List UInt8)} (hsize : 0 < size)
    (h : PcFacts size s part torn) : part.length < size ∧ torn.length ≤ 1 := by
  unfold PcFacts at h
  cases hpc : s.pc with
  | poll | dispatch =>
      rw [hpc] at h
      obtain ⟨rfl, rfl⟩ := h
      exact ⟨hsize, Nat.zero_le 1⟩
  | assemble totalRead =>
      rw [hpc] at h
      obtain ⟨rfl, ⟨hlt, rfl⟩ | ⟨-, rfl⟩⟩ := h
      · exact ⟨by rwa [length_assembled], Nat.zero_le 1⟩
      · exact ⟨hsize, Nat.zero_le 1⟩
  | recv totalRead =>
      rw [hpc] at h
      obtain ⟨rfl, hlt, rfl⟩ := h
      exact ⟨by rwa [length_assembled], Nat.zero_le 1⟩
  | loop | handle =>
      rw [hpc] at h
      rcases h with ⟨rfl, rfl⟩ | ⟨-, hstop⟩
      · exact ⟨hsize, Nat.zero_le 1⟩
      · exact hstop
  | exited =>
      rw [hpc] at h
      exact h

theorem PcFacts.pc_of_torn {part : List UInt8} {torn : List (List UInt8)}
    (h : PcFacts size s part torn) (hne : torn ≠ []) :
    s.pc = .handle ∨ s.pc = .loop ∧ s.running = false ∨ s.pc = .exited := by
  unfold PcFacts at h
  cases hpc : s.pc with
  | poll | dispatch =>
      rw [hpc] at h
      exact absurd h.2 hne
  | assemble | recv =>
      rw [hpc] at h
      exact absurd h.1 hne
  | loop =>
      rw [hpc] at h
      rcases h with ⟨-, hnil⟩ | ⟨hstop, -⟩
      · exact absurd hnil hne
      · exact Or.inr (Or.inl ⟨rfl, hstop⟩)
  | handle => exact Or.inl rfl
  | exited => exact Or.inr (Or.inr rfl)

end MatrixTransposer.UnixSockIpcClient
