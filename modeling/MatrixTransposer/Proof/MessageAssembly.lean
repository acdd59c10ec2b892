import MatrixTransposer.ConnectionLedger
import MatrixTransposer.Lib.StepCondition
import MatrixTransposer.Proof.MessageFraming
import MatrixTransposer.Proof.ServerBatch

/-!
# What the handler is given

The loop that assembles a message is left when the message is complete, when `recv` fails and when
the server is stopped, and the handler is called after it in all three cases. Only the first is a
whole message. After the other two the handler is given the bytes of some earlier message, of this
connection or of another, in place of those that are missing.
-/

namespace MatrixTransposer.UnixSockIpcServer

open Lib

variable {size baseFd : Nat} {s t : State} {a : Action} {os : List ConnectionEvent}

/-- A handler call under way is given all that has been received on its connection since the call
before it, and the connection is open. -/
def HandsOnWhole (size : Nat) (s : State) (os : List ConnectionEvent) : Prop :=
  ∀ fd events, s.pc = .handle fd events →
    message size s = (ledger fd os).part ∧ (s.connections fd).isSome = true

/-- The step does not end the assembly of a message that is incomplete. -/
def keepsAssembling (size : Nat) (s : State) : Action → Bool
  | .thread .failed =>
      match s.pc with
      | .recv .. => false
      | _ => true
  | .thread .none =>
      match s.pc with
      | .assemble _ totalRead _ => size ≤ totalRead || s.running
      | _ => true
  | _ => true

theorem ledger_append_closed (fd fd' : Nat) (os : List ConnectionEvent) :
    ledger fd (os ++ [⟨fd', .closed⟩]) = ledger fd os := by
  by_cases heq : fd' = fd
  · subst heq
    exact ledger_append_self fd' os .closed
  · exact ledger_append_ne heq os .closed

theorem part_append_arrived (fd fd' : Nat) (os : List ConnectionEvent) (bytes : List UInt8) :
    (ledger fd (os ++ [⟨fd', .arrived bytes⟩])).part = (ledger fd os).part := by
  by_cases heq : fd' = fd
  · subst heq
    rw [ledger_append_self]
    rfl
  · rw [ledger_append_ne heq]

/-! ## The invariant -/

/-- The bytes of the message so far fit the buffer. -/
def Room (size : Nat) : Pc → Prop
  | .assemble _ totalRead _ => totalRead ≤ size
  | .recv _ totalRead _ => totalRead < size
  | _ => True

structure Assembling (size baseFd : Nat) (s : State) (os : List ConnectionEvent) : Prop where
  registered : Registered baseFd s
  room : Room size s.pc
  part : ∀ fd, (ledger fd os).part = partOf size s fd
  handling : ∀ fd events, s.pc = .handle fd events → (s.connections fd).isSome = true

theorem assembling_initial (size baseFd : Nat) (buffer : Nat → UInt8) :
    Assembling size baseFd (initial buffer) [] where
  registered := registered_initial baseFd buffer
  room := trivial
  part := fun _ => rfl
  handling := fun _ _ hpc => by cases hpc

theorem Assembling.handsOnWhole (h : Assembling size baseFd s os) : HandsOnWhole size s os := by
  intro fd events hpc
  refine ⟨?_, h.handling fd events hpc⟩
  rw [h.part, partOf, hpc]
  exact (if_pos rfl).symm

theorem Assembling.data (h : Assembling size baseFd s os) {fd totalRead count : Nat}
    {events : List Event} {c : Connection} (hpc : s.pc = .recv fd totalRead events)
    (hunread : count ≤ c.unread.length) (fd' : Nat) :
    (ledger fd' (os ++ [⟨fd, .received (c.unread.take count)⟩])).part =
      if fd = fd' then
        assembled (writeBuffer s.buffer totalRead (c.unread.take count)) (totalRead + count)
      else [] := by
  have htake : (c.unread.take count).length = count := by
    rw [List.length_take, Nat.min_eq_left hunread]
  have hbuffer := assembled_writeBuffer s.buffer totalRead (c.unread.take count)
  rw [htake] at hbuffer
  have hpart := h.part fd'
  simp only [partOf, hpc] at hpart
  by_cases heq : fd = fd'
  · subst heq
    rw [if_pos rfl] at hpart ⊢
    rw [ledger_append_self, hbuffer, ← hpart]
    rfl
  · rw [if_neg heq] at hpart ⊢
    rw [ledger_append_ne heq, hpart]

/-- A step that shows nothing and leaves the received bytes where they are. -/
theorem Assembling.quiet (h : Assembling size baseFd s os) (hregistered : Registered baseFd t)
    (hevents : connectionEvents size baseFd s a = []) (hroom : Room size t.pc)
    (hpart : ∀ fd, partOf size t fd = partOf size s fd)
    (hhandling : ∀ fd events, t.pc = .handle fd events → (t.connections fd).isSome = true) :
    Assembling size baseFd t (os ++ connectionEvents size baseFd s a) := by
  rw [hevents, List.append_nil]
  exact ⟨hregistered, hroom, fun fd => (h.part fd).trans (hpart fd).symm, hhandling⟩

theorem Assembling.closed (h : Assembling size baseFd s os) (hregistered : Registered baseFd t)
    {fd : Nat} (hroom : Room size t.pc) (hpart : ∀ fd, partOf size t fd = partOf size s fd)
    (hhandling : ∀ fd events, t.pc = .handle fd events → (t.connections fd).isSome = true) :
    Assembling size baseFd t (os ++ [⟨fd, .closed⟩]) := by
  refine ⟨hregistered, hroom, fun fd' => ?_, hhandling⟩
  rw [ledger_append_closed, h.part, hpart]

theorem Assembling.thread (h : Assembling size baseFd s os) {reply : Reply}
    (hkeeps : keepsAssembling size s (.thread reply) = true)
    (hmove : ThreadMove size baseFd s reply t) :
    Assembling size baseFd t (os ++ connectionEvents size baseFd s (.thread reply)) := by
  have hregistered := h.registered.thread hmove
  have hroom := h.room
  have hpart := h.part
  cases hmove with
  | enter hpc | leave hpc | batchDone hpc | drainDone hpc | poll hpc | pollFailed hpc
  | acceptFailed hpc | drain hpc =>
      exact h.quiet hregistered (by simp [connectionEvents, hpc]) trivial
        (fun fd => by simp [partOf, hpc]) (by simp)
  | ignored hpc hbase hevent =>
      exact h.quiet hregistered (by simp [connectionEvents, hpc, hevent]) trivial
        (fun fd => by simp [partOf, hpc]) (by simp)
  | drainBase hpc hbase =>
      exact h.quiet hregistered (by simp [connectionEvents, hpc, hbase]) trivial
        (fun fd => by simp [partOf, hpc]) (by simp)
  | drained hpc hreply =>
      refine h.quiet hregistered ?_ trivial (fun fd => by simp [partOf, hpc]) (by simp)
      rcases hreply with rfl | rfl <;> simp [connectionEvents, hpc]
  | @accept e events fd hpc hfd =>
      refine ⟨hregistered, trivial, fun fd' => ?_, by simp⟩
      have hnone := hpart fd'
      simp only [partOf, hpc] at hnone
      simp only [connectionEvents, partOf]
      by_cases heq : fd = fd'
      · subst heq
        rw [ledger_append_self]
        rfl
      · rw [ledger_append_ne heq, hnone]
  | hangUp hpc hbase hevent =>
      simp only [connectionEvents, hpc, hevent, if_true]
      exact h.closed hregistered trivial (fun fd => by simp [partOf, hpc]) (by simp)
  | drainClose hpc hbase =>
      simp only [connectionEvents, hpc, if_neg hbase]
      exact h.closed hregistered trivial (fun fd => by simp [partOf, hpc]) (by simp)
  | recvFailed hpc => simp [keepsAssembling, hpc] at hkeeps
  | readable hpc hbase hevent =>
      exact h.quiet hregistered (by simp [connectionEvents, hpc, hevent]) (Nat.zero_le _)
        (fun fd => by simp [partOf, hpc, assembled]) (by simp)
  | incomplete hpc hsize hrunning =>
      exact h.quiet hregistered (by simp [connectionEvents, hpc]) hsize
        (fun fd => by simp [partOf, hpc]) (by simp)
  | @assembled fd totalRead events hpc hexit =>
      rw [hpc] at hroom
      -- the step keeps assembling, so the message is complete
      have hfull : size ≤ totalRead := by
        simp only [keepsAssembling, hpc, Bool.or_eq_true, decide_eq_true_eq] at hkeeps
        exact hkeeps.elim id fun hrunning => Nat.le_of_not_lt fun hlt => hexit ⟨hlt, hrunning⟩
      have hcomplete := Nat.le_antisymm hroom hfull
      have hopen := h.registered.assembling fd totalRead events (Or.inl hpc)
      refine h.quiet hregistered (by simp [connectionEvents, hpc]) trivial (fun fd' => ?_) ?_
      · simp only [partOf, hpc, hcomplete]
        rfl
      · simpa using hopen
  | again hpc =>
      rw [hpc] at hroom
      exact h.quiet hregistered (by simp [connectionEvents]) (Nat.le_of_lt hroom)
        (fun fd => by simp [partOf, hpc]) (by simp)
  | endOfStream hpc hfd hunread hclosed =>
      rw [hpc] at hroom
      exact h.quiet hregistered (by simp [connectionEvents]) (Nat.le_of_lt hroom)
        (fun fd => by simp [partOf, hpc]) (by simp)
  | data hpc hfd hcount hsize hunread =>
      rw [hpc] at hroom
      refine ⟨hregistered, ?_, fun fd => ?_, by simp⟩
      · change _ ≤ size
        simp only [Room] at hroom
        omega
      · simp only [connectionEvents, hpc, hfd]
        exact h.data hpc hunread fd
  | @handled fd events hpc =>
      refine ⟨hregistered, trivial, fun fd' => ?_, by simp⟩
      have hmessage := hpart fd'
      simp only [partOf, hpc] at hmessage
      simp only [connectionEvents, hpc, partOf]
      by_cases heq : fd = fd'
      · subst heq
        rw [ledger_append_self]
        rfl
      · rw [if_neg heq] at hmessage
        rw [ledger_append_ne heq, hmessage]

theorem Assembling.setConnection (h : Assembling size baseFd s os)
    (hregistered : Registered baseFd t) {fd : Nat} {c : Connection}
    (ht : t = s.setConnection fd (some c)) (hevents : ∀ fd, (ledger fd
      (os ++ connectionEvents size baseFd s a)).part = (ledger fd os).part) :
    Assembling size baseFd t (os ++ connectionEvents size baseFd s a) := by
  subst ht
  exact ⟨hregistered, h.room, fun fd' => (hevents fd').trans (h.part fd'),
    fun fd' events hpc => isSome_setConnection_some (h.handling fd' events hpc)⟩

theorem Assembling.step (h : Assembling size baseFd s os) (hkeeps : keepsAssembling size s a = true)
    (hstep : step size baseFd s a = some t) :
    Assembling size baseFd t (os ++ connectionEvents size baseFd s a) := by
  have hregistered := h.registered.step hstep
  cases move_of_step hstep with
  | connect | stop => exact h.quiet hregistered rfl h.room (fun _ => rfl) h.handling
  | @arrive fd bytes =>
      exact h.setConnection hregistered rfl fun fd' => part_append_arrived fd' fd os bytes
  | peerClose => exact h.setConnection hregistered rfl fun fd' => by simp [connectionEvents]
  | thread hmove => exact h.thread hkeeps hmove

/-- A step that ends the assembly of an incomplete message is followed by a call of the handler
that is not given what the connection has sent. -/
theorem Assembling.keeps_of_handsOnWhole (h : Assembling size baseFd s os)
    (hstep : UnixSockIpcServer.step size baseFd s a = some t)
    (hwhole : HandsOnWhole size t (os ++ connectionEvents size baseFd s a)) :
    keepsAssembling size s a = true := by
  cases a with
  | thread reply =>
      cases threadMove_of_step hstep with
      | recvFailed hpc =>
          -- the connection has been closed
          have hopen := (hwhole _ _ rfl).2
          simp [State.dropConnection, State.setConnection] at hopen
      | @assembled fd totalRead events hpc hexit =>
          simp only [connectionEvents, hpc, List.append_nil] at hwhole
          have hmessage := (hwhole fd events rfl).1
          have hpart := h.part fd
          simp only [partOf, hpc, if_true] at hpart
          have hlength := congrArg List.length (hmessage.trans hpart)
          rw [length_assembled, message, List.length_map, List.length_range] at hlength
          simp [keepsAssembling, hpc, hlength]
      | accept | poll | data | again | endOfStream | drain => rfl
      | drained hpc hreply => rcases hreply with rfl | rfl <;> simp [keepsAssembling, hpc]
      | enter hpc | leave hpc | pollFailed hpc | batchDone hpc | acceptFailed hpc | hangUp hpc
      | readable hpc | ignored hpc | handled hpc | drainDone hpc | drainBase hpc
      | drainClose hpc => simp [keepsAssembling, hpc]
      | incomplete hpc hsize hrunning => simp [keepsAssembling, hpc, hrunning]
  | connect | arrive | peerClose | stop => rfl

/-- **When the handler is given whole messages.** In every run, all the calls of the handler are
given the bytes received on their own connection since the call before, in order and as many as a
message has, the connection still being open, if and only if no step of the run ends the assembly of
an incomplete message: neither does `recv` fail, nor is the thread stopped between the first test of
the assembly loop and the last byte. -/
theorem handler_given_whole_iff (size baseFd : Nat) (buffer : Nat → UInt8) (acts : List Action) :
    (machine size baseFd).Throughout (connectionEvents size baseFd) (HandsOnWhole size)
        (initial buffer) acts ↔
      (machine size baseFd).Steps (fun s a => keepsAssembling size s a = true) (initial buffer)
        acts :=
  Machine.throughout_iff_steps (I := Assembling size baseFd)
    (fun _ _ _ _ h hkeeps hstep => h.step hkeeps hstep) (fun _ _ h => h.handsOnWhole)
    (fun _ _ _ _ h hstep hwhole => h.keeps_of_handsOnWhole hstep hwhole)
    (assembling_initial size baseFd buffer)

/-- The first client's message is handled; then `recv` fails on the second client's connection. -/
def replayed : List Action :=
  [.connect, .connect, .thread .none,
    .thread (.events [{ fd := 3, hangUp := false, readable := true }]), .thread (.accepted 5),
    .thread .none, .thread .none,
    .thread (.events [{ fd := 3, hangUp := false, readable := true }]), .thread (.accepted 6),
    .thread .none, .arrive 5 [7, 8], .thread .none,
    .thread (.events [{ fd := 5, hangUp := false, readable := true }]), .thread .none,
    .thread .none, .thread (.data 2), .thread .none, .thread .none, .thread .none, .arrive 6 [9],
    .thread .none, .thread (.events [{ fd := 6, hangUp := false, readable := true }]),
    .thread .none, .thread .none, .thread .failed]

/-- The handler is given the first client's message again, in the name of the second. -/
theorem handler_given_stale_message :
    ¬ (machine 2 3).Throughout (connectionEvents 2 3) (HandsOnWhole 2) (initial fun _ => 0)
      replayed := by
  intro hthroughout
  have hwhole := hthroughout replayed _ List.prefix_rfl rfl
  have hmessage := (hwhole 6 [] rfl).1
  exact absurd hmessage (by decide)

end MatrixTransposer.UnixSockIpcServer
