import MatrixTransposer.Proof.ServerThread
import MatrixTransposer.Lib.Chunks
import Mathlib.Data.List.GetD

/-!
# The messages of `ServerThread`

The assembly buffer is shared by all connections, but the loop that fills it stays with one
connection until the message is complete. So the part of a connection's stream that has been
received and not been handled is either in the front of the buffer or empty.
-/

namespace MatrixTransposer.UnixSockIpcServer

open Lib

variable {size baseFd : Nat} {s t : State} {a : Action} {os : List Observation} {fd : Nat}

/-! ## The buffer -/

def assembled (buffer : Nat → UInt8) (totalRead : Nat) : List UInt8 :=
  (List.range totalRead).map buffer

theorem length_assembled (buffer : Nat → UInt8) (totalRead : Nat) :
    (assembled buffer totalRead).length = totalRead := by
  rw [assembled, List.length_map, List.length_range]

theorem assembled_writeBuffer (buffer : Nat → UInt8) (totalRead : Nat) (bytes : List UInt8) :
    assembled (writeBuffer buffer totalRead bytes) (totalRead + bytes.length) =
      assembled buffer totalRead ++ bytes := by
  apply List.ext_getElem
  · rw [length_assembled, List.length_append, length_assembled]
  · intro i hi hi'
    rw [length_assembled] at hi
    simp only [assembled, List.getElem_map, List.getElem_range, writeBuffer]
    by_cases hle : totalRead ≤ i
    · rw [if_pos hle, List.getElem_append_right (by simpa using hle)]
      simp only [List.length_map, List.length_range]
      rw [List.getD_eq_getElem _ _ (by omega)]
    · rw [if_neg hle, List.getElem_append_left (by simpa using hle)]
      simp

/-- What has been received on a connection and not been handled. -/
def partOf (size : Nat) (s : State) (fd : Nat) : List UInt8 :=
  match s.pc with
  | .assemble fd' totalRead _ | .recv fd' totalRead _ =>
      if fd' = fd then assembled s.buffer totalRead else []
  | .handle fd' _ => if fd' = fd then message size s else []
  | _ => []

/-- The message that the thread is about to hand to the handler. -/
def pending (size : Nat) (s : State) (fd : Nat) : List (List UInt8) :=
  match s.pc with
  | .assemble fd' totalRead _ => if fd' = fd ∧ totalRead = size then [message size s] else []
  | .handle fd' _ => if fd' = fd then [message size s] else []
  | _ => []

/-! ## The observations -/

@[simp] theorem receivedOn_append (os os' : List Observation) :
    receivedOn fd (os ++ os') = receivedOn fd os ++ receivedOn fd os' :=
  List.flatMap_append

@[simp] theorem arrivedOn_append (os os' : List Observation) :
    arrivedOn fd (os ++ os') = arrivedOn fd os ++ arrivedOn fd os' :=
  List.flatMap_append

@[simp] theorem handledOn_append (os os' : List Observation) :
    handledOn fd (os ++ os') = handledOn fd os ++ handledOn fd os' :=
  List.flatMap_append

/-! ## The invariant -/

/-- Where the thread can stand in a calm run, and with which events. -/
def PcFacts (size baseFd : Nat) : Pc → Prop
  | .dispatch events | .handle _ events => ∀ e ∈ events, e.fd ≠ baseFd → e.hangUp = false
  | .assemble _ totalRead events =>
      totalRead ≤ size ∧ ∀ e ∈ events, e.fd ≠ baseFd → e.hangUp = false
  | .recv _ totalRead events =>
      totalRead < size ∧ ∀ e ∈ events, e.fd ≠ baseFd → e.hangUp = false
  | _ => True

/-- What the kernel holds for the thread to receive. -/
def unreadOn (s : State) (fd : Nat) : List UInt8 :=
  match s.connections fd with
  | some c => c.unread
  | none => []

structure Framing (size baseFd : Nat) (s : State) (os : List Observation) : Prop where
  running : s.running = true
  pc : PcFacts size baseFd s.pc
  peer_open : ∀ fd c, s.connections fd = some c → c.peerClosed = false
  framed : ∀ fd, receivedOn fd os = (handledOn fd os).flatten ++ partOf size s fd
  sized : ∀ fd, ∀ m ∈ handledOn fd os, m.length = size
  stream : ∀ fd, (s.connections fd).isSome = true ∨ Draining s.pc = false →
    arrivedOn fd os = receivedOn fd os ++ unreadOn s fd
  received_prefix : ∀ fd, receivedOn fd os <+: arrivedOn fd os

theorem Framing.setPc (h : Framing size baseFd s os) {pc : Pc} (hpc : PcFacts size baseFd pc)
    (hpart : ∀ fd, partOf size { s with pc := pc } fd = partOf size s fd)
    (hdraining : Draining pc = false → Draining s.pc = false) :
    Framing size baseFd { s with pc := pc } os :=
  { h with
    pc := hpc
    framed := fun fd => by rw [hpart, h.framed]
    stream := fun fd hfd => h.stream fd (hfd.imp_right hdraining) }

theorem Framing.setDraining (h : Framing size baseFd s os) {pc : Pc} (hpc : Draining pc = true)
    (hpart : ∀ fd, partOf size { s with pc := pc } fd = partOf size s fd) :
    Framing size baseFd { s with pc := pc } os := by
  apply h.setPc ?_ hpart
  · intro hdraining
    rw [hpc] at hdraining
    cases hdraining
  · cases pc with
    | drain | drainClose | exited => trivial
    | loop | poll | dispatch | assemble | recv | handle => cases hpc

theorem Framing.open_setConnection (h : Framing size baseFd s os) {c : Connection}
    (hopen : c.peerClosed = false) (fd' : Nat) (c' : Connection)
    (hc : (s.setConnection fd (some c)).connections fd' = some c') : c'.peerClosed = false := by
  by_cases heq : fd' = fd
  · subst heq
    simp only [setConnection_connections_self] at hc
    cases hc
    exact hopen
  · simp only [setConnection_connections_of_ne _ heq] at hc
    exact h.peer_open fd' c' hc

theorem Framing.accept (h : Framing size baseFd s os) {e : Event} {events : List Event}
    (hpc : s.pc = .dispatch (e :: events)) (hfd : s.connections fd = none) {backlog : Nat}
    {count : UInt32} :
    Framing size baseFd
      { s.setConnection fd (some { unread := [], peerClosed := false }) with
        backlog := backlog, connectionCount := count, pc := .dispatch events } os := by
  have hfacts := h.pc
  rw [hpc] at hfacts
  refine ⟨h.running, fun e' he' => hfacts e' (List.mem_cons_of_mem _ he'),
    h.open_setConnection rfl, ?_, h.sized, ?_, h.received_prefix⟩
  · intro fd'
    rw [h.framed fd']
    simp only [partOf, hpc]
  · intro fd' _
    rw [h.stream fd' (Or.inr (by rw [hpc]; rfl))]
    by_cases heq : fd' = fd
    · subst heq
      simp [unreadOn, State.setConnection, hfd]
    · simp [unreadOn, setConnection_connections_of_ne _ heq]

theorem Framing.data (h : Framing size baseFd s os) {totalRead count : Nat} {events : List Event}
    {c : Connection} (hpc : s.pc = .recv fd totalRead events) (hfd : s.connections fd = some c)
    (hsize : count ≤ size - totalRead) (hunread : count ≤ c.unread.length) :
    Framing size baseFd
      { s.setConnection fd (some { c with unread := c.unread.drop count }) with
        buffer := writeBuffer s.buffer totalRead (c.unread.take count)
        pc := .assemble fd (totalRead + count) events }
      (os ++ [.received fd (c.unread.take count)]) := by
  have hfacts := h.pc
  rw [hpc] at hfacts
  have hlt : totalRead < size := hfacts.1
  have htake : (c.unread.take count).length = count := by
    rw [List.length_take, Nat.min_eq_left hunread]
  have hreceived : ∀ fd', receivedOn fd' [.received fd (c.unread.take count)] =
      if fd = fd' then c.unread.take count else [] := by
    intro fd'
    simp [receivedOn]
  have hhandled : ∀ fd', handledOn fd' [.received fd (c.unread.take count)] = [] := fun _ => rfl
  have harrived : ∀ fd', arrivedOn fd' [.received fd (c.unread.take count)] = [] := fun _ => rfl
  have hstream : ∀ fd', arrivedOn fd' os = receivedOn fd' os ++ unreadOn s fd' :=
    fun fd' => h.stream fd' (Or.inr (by rw [hpc]; rfl))
  have hstream' : ∀ fd', arrivedOn fd' (os ++ [.received fd (c.unread.take count)]) =
      receivedOn fd' (os ++ [.received fd (c.unread.take count)]) ++
        unreadOn (s.setConnection fd (some { c with unread := c.unread.drop count })) fd' := by
    intro fd'
    rw [arrivedOn_append, receivedOn_append, harrived, hreceived, List.append_nil, hstream]
    by_cases heq : fd = fd'
    · subst heq
      simp [unreadOn, State.setConnection, hfd]
    · simp [unreadOn, setConnection_connections_of_ne _ (Ne.symm heq), heq]
  refine ⟨h.running, ⟨by omega, hfacts.2⟩, h.open_setConnection (h.peer_open fd c hfd), ?_, ?_,
    fun fd' _ => hstream' fd', ?_⟩
  · intro fd'
    rw [receivedOn_append, handledOn_append, hreceived, hhandled, List.append_nil, h.framed]
    simp only [partOf, hpc]
    by_cases heq : fd = fd'
    · -- the new bytes are behind those that the buffer held
      have hbuffer := assembled_writeBuffer s.buffer totalRead (c.unread.take count)
      rw [htake] at hbuffer
      rw [if_pos heq, if_pos heq, if_pos heq, hbuffer, List.append_assoc]
    · rw [if_neg heq, if_neg heq, if_neg heq, List.append_nil]
  · intro fd' m hm
    rw [handledOn_append, hhandled, List.append_nil] at hm
    exact h.sized fd' m hm
  · intro fd'
    exact ⟨_, (hstream' fd').symm⟩

theorem Framing.handled (h : Framing size baseFd s os) {events : List Event}
    (hpc : s.pc = .handle fd events) :
    Framing size baseFd { s with pc := .dispatch events }
      (os ++ [.handled fd (message size s)]) := by
  have hfacts := h.pc
  rw [hpc] at hfacts
  have hhandled : ∀ fd', handledOn fd' [.handled fd (message size s)] =
      if fd = fd' then [message size s] else [] := by
    intro fd'
    simp [handledOn]
  have hreceived : ∀ fd', receivedOn fd' [.handled fd (message size s)] = [] := fun _ => rfl
  have harrived : ∀ fd', arrivedOn fd' [.handled fd (message size s)] = [] := fun _ => rfl
  refine ⟨h.running, hfacts, h.peer_open, ?_, ?_, ?_, ?_⟩
  · intro fd'
    rw [receivedOn_append, handledOn_append, hreceived, hhandled, List.append_nil, h.framed]
    simp only [partOf, hpc]
    by_cases heq : fd = fd'
    · rw [if_pos heq, if_pos heq, List.flatten_append, List.append_nil, List.flatten_singleton]
    · simp only [if_neg heq, List.append_nil]
  · intro fd' m hm
    rw [handledOn_append, hhandled, List.mem_append] at hm
    rcases hm with hm | hm
    · exact h.sized fd' m hm
    · split at hm
      case isTrue =>
        rw [List.mem_singleton.mp hm]
        exact length_assembled s.buffer size
      case isFalse => cases hm
  · intro fd' _
    rw [arrivedOn_append, receivedOn_append, hreceived, harrived, List.append_nil, List.append_nil]
    exact h.stream fd' (Or.inr (by rw [hpc]; rfl))
  · intro fd'
    rw [arrivedOn_append, receivedOn_append, hreceived, harrived, List.append_nil, List.append_nil]
    exact h.received_prefix fd'

/-- After `epoll_wait` has failed, connections are closed with what they hold unread. -/
theorem Framing.close (h : Framing size baseFd s os) {e : Event} {events : List Event}
    (hpc : s.pc = .drainClose (e :: events)) :
    Framing size baseFd { s.setConnection e.fd none with pc := .drainClose events } os := by
  have hconnections : ∀ fd' c, (s.setConnection e.fd none).connections fd' = some c →
      fd' ≠ e.fd ∧ s.connections fd' = some c := by
    intro fd' c hc
    by_cases heq : fd' = e.fd
    · simp [State.setConnection, heq] at hc
    · simp only [setConnection_connections_of_ne _ heq] at hc
      exact ⟨heq, hc⟩
  refine ⟨h.running, trivial, ?_, ?_, h.sized, ?_, h.received_prefix⟩
  · intro fd' c hc
    exact h.peer_open fd' c (hconnections fd' c hc).2
  · intro fd'
    rw [h.framed]
    simp only [partOf, hpc]
  · intro fd' hfd'
    rcases hfd' with hopen | hdraining
    · obtain ⟨c, hc⟩ := Option.isSome_iff_exists.mp hopen
      obtain ⟨hne, hold⟩ := hconnections fd' c hc
      rw [h.stream fd' (Or.inl (by rw [hold]; rfl))]
      simp [unreadOn, setConnection_connections_of_ne _ hne]
    · cases hdraining

theorem Framing.not_hangUp (h : Framing size baseFd s os) {events : List Event}
    (hevents : Deliverable baseFd s events) : ∀ e ∈ events, e.fd ≠ baseFd → e.hangUp = false := by
  intro e he hbase
  obtain ⟨c, hc, hclosed⟩ := hevents.2.2 e he hbase
  by_contra hhangUp
  have hpeer := hclosed (eq_true_of_ne_false hhangUp)
  rw [h.peer_open _ c hc] at hpeer
  cases hpeer

theorem Framing.thread (h : Framing size baseFd s os) {reply : Reply}
    (hcalm : calm s (.thread reply) = true) (hmove : ThreadMove size baseFd s reply t) :
    Framing size baseFd t (os ++ observe size s (.thread reply)) := by
  have hfacts := h.pc
  cases hmove with
  | accept hpc hfd =>
      simp only [observe, List.append_nil]
      exact h.accept hpc hfd
  | data hpc hfd hcount hsize hunread =>
      simp only [observe, hpc, hfd]
      exact h.data hpc hfd hsize hunread
  | handled hpc =>
      simp only [observe, hpc]
      exact h.handled hpc
  | drainClose hpc hbase =>
      simp only [observe, hpc, List.append_nil]
      exact h.close hpc
  | recvFailed hpc =>
      simp [calm, hpc] at hcalm
  | hangUp hpc hbase hevent =>
      -- no peer has closed, so no event of the batch is a hang-up
      rw [hpc] at hfacts
      rw [hfacts _ List.mem_cons_self hbase] at hevent
      cases hevent
  | endOfStream hpc hfd hunread hclosed =>
      rw [h.peer_open _ _ hfd] at hclosed
      cases hclosed
  | enter hpc hrunning =>
      simp only [observe, hpc, List.append_nil]
      exact h.setPc trivial (fun fd => by simp only [partOf, hpc]) fun _ => by rw [hpc]; rfl
  | leave hpc hrunning =>
      rw [h.running] at hrunning
      cases hrunning
  | poll hpc hevents =>
      simp only [observe, List.append_nil]
      exact h.setPc (h.not_hangUp hevents) (fun fd => by simp only [partOf, hpc])
        fun _ => by rw [hpc]; rfl
  | pollFailed hpc =>
      simp only [observe, List.append_nil]
      exact h.setDraining rfl fun fd => by simp only [partOf, hpc]
  | batchDone hpc =>
      simp only [observe, hpc, List.append_nil]
      exact h.setPc trivial (fun fd => by simp only [partOf, hpc]) fun _ => by rw [hpc]; rfl
  | acceptFailed hpc =>
      rw [hpc] at hfacts
      simp only [observe, List.append_nil]
      exact h.setPc (fun e he => hfacts e (List.mem_cons_of_mem _ he))
        (fun fd => by simp only [partOf, hpc]) fun _ => by rw [hpc]; rfl
  | readable hpc hbase =>
      rw [hpc] at hfacts
      simp only [observe, hpc, List.append_nil]
      exact h.setPc ⟨Nat.zero_le _, fun e he => hfacts e (List.mem_cons_of_mem _ he)⟩
        (fun fd => by simp [partOf, hpc, assembled]) fun _ => by rw [hpc]; rfl
  | ignored hpc hbase =>
      rw [hpc] at hfacts
      simp only [observe, hpc, List.append_nil]
      exact h.setPc (fun e he => hfacts e (List.mem_cons_of_mem _ he))
        (fun fd => by simp only [partOf, hpc]) fun _ => by rw [hpc]; rfl
  | incomplete hpc hsize hrunning =>
      rw [hpc] at hfacts
      simp only [observe, hpc, List.append_nil]
      exact h.setPc ⟨hsize, hfacts.2⟩ (fun fd => by simp only [partOf, hpc])
        fun _ => by rw [hpc]; rfl
  | assembled hpc hexit =>
      rw [hpc] at hfacts
      -- the thread is running, so the message is complete
      have hle := hfacts.1
      have hsize := fun hlt => hexit ⟨hlt, h.running⟩
      have hcomplete : _ = size := Nat.le_antisymm hle (Nat.le_of_not_lt hsize)
      simp only [observe, hpc, List.append_nil]
      refine h.setPc hfacts.2 (fun fd => ?_) fun _ => by rw [hpc]; rfl
      simp only [partOf, hpc, hcomplete]
      rfl
  | again hpc =>
      rw [hpc] at hfacts
      simp only [observe, List.append_nil]
      exact h.setPc ⟨Nat.le_of_lt hfacts.1, hfacts.2⟩ (fun fd => by simp only [partOf, hpc])
        fun _ => by rw [hpc]; rfl
  | drained hpc hreply =>
      have hobserve : observe size s (.thread reply) = [] := by
        rcases hreply with rfl | rfl <;> rfl
      rw [hobserve, List.append_nil]
      exact h.setDraining rfl fun fd => by simp only [partOf, hpc]
  | drain hpc hevents =>
      simp only [observe, List.append_nil]
      exact h.setDraining rfl fun fd => by simp only [partOf, hpc]
  | drainDone hpc =>
      simp only [observe, hpc, List.append_nil]
      exact h.setDraining rfl fun fd => by simp only [partOf, hpc]
  | drainBase hpc hbase =>
      simp only [observe, hpc, List.append_nil]
      exact h.setDraining rfl fun fd => by simp only [partOf, hpc]

theorem Framing.arrive (h : Framing size baseFd s os) {bytes : List UInt8} {c : Connection}
    (hfd : s.connections fd = some c) :
    Framing size baseFd (s.setConnection fd (some { c with unread := c.unread ++ bytes }))
      (os ++ [.arrived fd bytes]) := by
  have harrived : ∀ fd', arrivedOn fd' [.arrived fd bytes] = if fd = fd' then bytes else [] := by
    intro fd'
    simp [arrivedOn]
  have hreceived : ∀ fd', receivedOn fd' [.arrived fd bytes] = [] := fun _ => rfl
  have hhandled : ∀ fd', handledOn fd' [.arrived fd bytes] = [] := fun _ => rfl
  refine ⟨h.running, h.pc, h.open_setConnection (h.peer_open fd c hfd), ?_, ?_, ?_, ?_⟩
  · intro fd'
    rw [receivedOn_append, handledOn_append, hreceived, hhandled, List.append_nil, List.append_nil,
      h.framed]
    rfl
  · intro fd' m hm
    rw [handledOn_append, hhandled, List.append_nil] at hm
    exact h.sized fd' m hm
  · intro fd' hfd'
    rw [arrivedOn_append, receivedOn_append, harrived, hreceived, List.append_nil]
    by_cases heq : fd = fd'
    · subst heq
      rw [h.stream fd (Or.inl (by rw [hfd]; rfl))]
      simp [unreadOn, State.setConnection, hfd]
    · have hopen : (s.connections fd').isSome = true ∨ Draining s.pc = false := by
        simpa only [setConnection_pc, setConnection_connections_of_ne _ (Ne.symm heq)] using hfd'
      rw [h.stream fd' hopen]
      simp [unreadOn, setConnection_connections_of_ne _ (Ne.symm heq), heq]
  · intro fd'
    rw [arrivedOn_append, receivedOn_append, hreceived, List.append_nil]
    exact (h.received_prefix fd').trans (List.prefix_append _ _)

theorem framing_step (h : Framing size baseFd s os)
    (hstep : (calmMachine size baseFd).step s a = some t) :
    Framing size baseFd t (os ++ observe size s a) := by
  simp only [calmMachine] at hstep
  split at hstep
  case isFalse => cases hstep
  case isTrue hcalm =>
    cases move_of_step hstep with
    | connect =>
        simp only [observe, List.append_nil]
        exact { h with }
    | arrive hfd => exact h.arrive hfd
    | peerClose | stop => cases hcalm
    | thread hmove => exact h.thread hcalm hmove

theorem framing_initial (size baseFd : Nat) (buffer : Nat → UInt8) :
    Framing size baseFd (initial buffer) [] where
  running := rfl
  pc := trivial
  peer_open := by
    intro fd c hc
    cases hc
  framed := fun _ => rfl
  sized := by
    intro fd m hm
    cases hm
  stream := fun _ _ => rfl
  received_prefix := fun _ => List.prefix_refl _

theorem pending_eq_chunks (hsize : 0 < size) (h : Framing size baseFd s os) (fd : Nat) :
    pending size s fd = chunks size (partOf size s fd) := by
  have hmessage : chunks size (message size s) = [message size s] :=
    chunks_of_length_eq hsize (length_assembled s.buffer size)
  have hnil : chunks size ([] : List UInt8) = [] := chunks_of_length_lt hsize
  have hfacts := h.pc
  cases hpc : s.pc with
  | assemble fd' totalRead events =>
      rw [hpc] at hfacts
      simp only [pending, partOf, hpc]
      by_cases heq : fd' = fd
      · rcases Nat.eq_or_lt_of_le hfacts.1 with hfull | hlt
        · rw [if_pos ⟨heq, hfull⟩, if_pos heq, hfull]
          exact hmessage.symm
        · rw [if_neg fun hand => Nat.ne_of_lt hlt hand.2, if_pos heq,
            chunks_of_length_lt (by rwa [length_assembled])]
      · rw [if_neg fun hand => heq hand.1, if_neg heq, hnil]
  | recv fd' totalRead events =>
      rw [hpc] at hfacts
      simp only [pending, partOf, hpc]
      split
      · rw [chunks_of_length_lt (by rw [length_assembled]; exact hfacts.1)]
      · rw [hnil]
  | handle fd' events =>
      simp only [pending, partOf, hpc]
      split
      · exact hmessage.symm
      · rw [hnil]
  | _ =>
      simp only [pending, partOf, hpc]
      exact hnil.symm

/-- The handler is given the complete messages of every connection's stream and nothing else. -/
theorem handledOn_eq_chunks (hsize : 0 < size) {s₀ : State} {acts : List Action}
    (hinit : (calmMachine size baseFd).init s₀)
    (hrun : (calmMachine size baseFd).exec s₀ acts = some s) (fd : Nat) :
    let os := (calmMachine size baseFd).trace (observe size) s₀ acts
    handledOn fd os ++ pending size s fd = chunks size (receivedOn fd os) ∧
      receivedOn fd os <+: arrivedOn fd os := by
  obtain ⟨buffer, rfl⟩ := hinit
  intro os
  have h : Framing size baseFd s ([] ++ os) :=
    Lib.Machine.exec_trace_invariant (fun s os a t => framing_step)
      (framing_initial size baseFd buffer) hrun
  rw [List.nil_append] at h
  refine ⟨?_, h.received_prefix fd⟩
  rw [h.framed, chunks_flatten_append hsize (h.sized fd), pending_eq_chunks hsize h]

/-- A client sends three bytes; the thread reads the first two, a message, in two pieces. -/
def threeBytes : List Action :=
  [.connect, .thread .none, .thread (.events [{ fd := 3, hangUp := false, readable := true }]),
    .thread (.accepted 5), .thread .none, .arrive 5 [7, 8, 9], .thread .none,
    .thread (.events [{ fd := 5, hangUp := false, readable := true }]), .thread .none,
    .thread .none, .thread (.data 1), .thread .none, .thread .again, .thread .none,
    .thread (.data 1), .thread .none, .thread .none]

theorem handledOn_eq_chunks_three_bytes :
    handledOn 5 ((calmMachine 2 3).trace (observe 2) (initial fun _ => 0) threeBytes) = [[7, 8]] ∧
      ∃ s, (calmMachine 2 3).exec (initial fun _ => 0) threeBytes = some s ∧
        [[7, 8]] ++ pending 2 s 5 = chunks 2 [7, 8] := by
  have hhandled :
      handledOn 5 ((calmMachine 2 3).trace (observe 2) (initial fun _ => 0) threeBytes) =
        [[7, 8]] := by
    decide +kernel
  have hreceived :
      receivedOn 5 ((calmMachine 2 3).trace (observe 2) (initial fun _ => 0) threeBytes) =
        [7, 8] := by
    decide +kernel
  have hruns : ((calmMachine 2 3).exec (initial fun _ => 0) threeBytes).isSome = true := by
    decide +kernel
  obtain ⟨s, hrun⟩ := Option.isSome_iff_exists.mp hruns
  have hchunks := (handledOn_eq_chunks (by decide) ⟨_, rfl⟩ hrun 5).1
  rw [hhandled, hreceived] at hchunks
  exact ⟨hhandled, s, hrun, hchunks⟩

end MatrixTransposer.UnixSockIpcServer
