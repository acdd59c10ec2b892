import MatrixTransposer.Proof.MessageAssembly

/-!
# What a closed connection has lost

The server closes a connection in three places: when an event reports a hang-up, when `recv` fails,
and after the main loop. In none of them does it look for bytes that are still to be read. A client
that sends its last message and closes loses it when the server has not received it by the time it
sees the hang-up, whatever else the event reports.
-/

namespace MatrixTransposer.UnixSockIpcServer

open Lib

variable {size baseFd : Nat} {s t : State} {a : Action} {os : List ConnectionEvent}

/-- A connection is closed after its complete messages have been handled. -/
def ClosesComplete (size : Nat) (_ : State) (os : List ConnectionEvent) : Prop :=
  ∀ before fd, os = before ++ [⟨fd, .closed⟩] →
    (ledger fd os).handled = chunks size (ledger fd os).arrived

/-- The step does not end the assembly of a message because the server is stopped. -/
def notCutShort (size : Nat) (s : State) : Action → Bool
  | .thread .none =>
      match s.pc with
      | .assemble _ totalRead _ => size ≤ totalRead || s.running
      | _ => true
  | _ => true

/-- If the step closes a connection, what the thread holds of its message and what it has not
received yet do not make up a message. -/
def closesEmpty (size baseFd : Nat) (s : State) : Action → Bool
  | .thread .none =>
      match s.pc with
      | .dispatch (e :: _) => !e.hangUp || (unreadOn s e.fd).length < size
      | .drainClose (e :: _) => e.fd = baseFd || (unreadOn s e.fd).length < size
      | _ => true
  | .thread .failed =>
      match s.pc with
      | .recv fd totalRead _ => totalRead + (unreadOn s fd).length < size
      | _ => true
  | _ => true

/-! ## The ledger of an open connection -/

/-- What has arrived is what the handler has been given, the part of a message that the thread
holds, and what it has not received. -/
structure Ledger.Framed (size : Nat) (l : Ledger) (part unread : List UInt8) : Prop where
  arrived : l.arrived = l.received ++ unread
  received : l.received = l.handled.flatten ++ part
  sized : ∀ m ∈ l.handled, m.length = size

namespace Ledger.Framed

variable {l : Ledger} {part unread bytes rest : List UInt8}

theorem empty : Ledger.empty.Framed size [] [] := ⟨rfl, rfl, by simp [Ledger.empty]⟩

theorem arrive (h : l.Framed size part unread) (bytes : List UInt8) :
    (l.record (.arrived bytes)).Framed size part (unread ++ bytes) := by
  refine ⟨?_, h.received, h.sized⟩
  change l.arrived ++ bytes = _
  rw [h.arrived, List.append_assoc]
  rfl

theorem receive (h : l.Framed size part (bytes ++ rest)) :
    (l.record (.received bytes)).Framed size (part ++ bytes) rest := by
  refine ⟨?_, ?_, h.sized⟩
  · change l.arrived = (l.received ++ bytes) ++ rest
    rw [h.arrived, List.append_assoc]
  · change l.received ++ bytes = l.handled.flatten ++ (part ++ bytes)
    rw [h.received, List.append_assoc]

theorem handle (h : l.Framed size part unread) (hpart : part.length = size) :
    (l.record (.handled part)).Framed size [] unread := by
  refine ⟨h.arrived, ?_, ?_⟩
  · change l.received = (l.handled ++ [part]).flatten ++ []
    rw [h.received, List.flatten_append, List.flatten_singleton, List.append_nil]
  · intro m hm
    rcases List.mem_append.mp hm with hold | hnew
    · exact h.sized m hold
    · rw [List.mem_singleton.mp hnew, hpart]

/-- Nothing complete is left. -/
theorem handled_eq_iff (hsize : 0 < size) (h : l.Framed size part unread) :
    l.handled = chunks size l.arrived ↔ part.length + unread.length < size := by
  have hchunks : chunks size l.arrived = l.handled ++ chunks size (part ++ unread) := by
    rw [h.arrived, h.received, List.append_assoc, chunks_flatten_append hsize h.sized]
  rw [hchunks, ← List.length_append, ← chunks_eq_nil_iff hsize]
  exact ⟨fun heq => List.self_eq_append_right.mp heq, fun hnil => by rw [hnil, List.append_nil]⟩

end Ledger.Framed

/-! ## The invariant -/

structure Delivering (size baseFd : Nat) (s : State) (os : List ConnectionEvent) : Prop where
  registered : Registered baseFd s
  room : Room size s.pc
  framed : ∀ fd c, s.connections fd = some c →
    (ledger fd os).Framed size (partOf size s fd) c.unread
  closes : ClosesComplete size s os

theorem delivering_initial (size baseFd : Nat) (buffer : Nat → UInt8) :
    Delivering size baseFd (initial buffer) [] where
  registered := registered_initial baseFd buffer
  room := trivial
  framed := fun _ _ hc => by cases hc
  closes := fun before fd heq => by simp at heq

theorem closesComplete_append {fd : Nat} {kind : EventKind} (hkind : kind ≠ .closed) :
    ClosesComplete size s (os ++ [⟨fd, kind⟩]) := by
  intro before fd' heq
  have hlast := (List.append_inj' heq rfl).2
  rw [List.singleton_inj, ConnectionEvent.mk.injEq] at hlast
  exact absurd hlast.2 hkind

/-- Closing a connection is right exactly when nothing complete of it is left. -/
theorem closesComplete_closed_iff (hsize : 0 < size) {fd : Nat} {part unread : List UInt8}
    (h : (ledger fd os).Framed size part unread) :
    ClosesComplete size s (os ++ [⟨fd, .closed⟩]) ↔ part.length + unread.length < size := by
  rw [← h.handled_eq_iff hsize]
  constructor
  · intro hcloses
    have hlast := hcloses os fd rfl
    rwa [ledger_append_closed] at hlast
  · intro hhandled before fd' heq
    have hlast := (List.append_inj' heq rfl).2
    rw [List.singleton_inj, ConnectionEvent.mk.injEq] at hlast
    rw [ledger_append_closed, ← hlast.1]
    exact hhandled

theorem connections_setConnection_of_none {fd fd' : Nat} {c : Connection}
    (h : (s.setConnection fd none).connections fd' = some c) :
    fd' ≠ fd ∧ s.connections fd' = some c := by
  by_cases heq : fd' = fd
  · subst heq
    simp [State.setConnection] at h
  · exact ⟨heq, by simpa [setConnection_connections_of_ne _ heq] using h⟩

theorem Delivering.quiet (h : Delivering size baseFd s os) (hregistered : Registered baseFd t)
    (hevents : connectionEvents size baseFd s a = []) (hroom : Room size t.pc)
    (hconnections : t.connections = s.connections)
    (hpart : ∀ fd, partOf size t fd = partOf size s fd) :
    Delivering size baseFd t (os ++ connectionEvents size baseFd s a) := by
  rw [hevents, List.append_nil]
  refine ⟨hregistered, hroom, fun fd c hc => ?_, h.closes⟩
  rw [hpart]
  exact h.framed fd c (hconnections ▸ hc)

theorem Delivering.closed (hsize : 0 < size) (h : Delivering size baseFd s os)
    (hregistered : Registered baseFd t) {fd : Nat} {c : Connection}
    (hfd : s.connections fd = some c)
    (hshort : (partOf size s fd).length + c.unread.length < size) (hroom : Room size t.pc)
    (hconnections : t.connections = (s.setConnection fd none).connections)
    (hpart : ∀ fd', fd' ≠ fd → partOf size t fd' = partOf size s fd') :
    Delivering size baseFd t (os ++ [⟨fd, .closed⟩]) := by
  refine ⟨hregistered, hroom, fun fd' c' hc' => ?_,
    (closesComplete_closed_iff hsize (h.framed fd c hfd)).mpr hshort⟩
  rw [hconnections] at hc'
  obtain ⟨hne, hold⟩ := connections_setConnection_of_none hc'
  rw [ledger_append_closed, hpart fd' hne]
  exact h.framed fd' c' hold

theorem Delivering.accept (h : Delivering size baseFd s os) (hregistered : Registered baseFd t)
    {fd : Nat} (hroom : Room size t.pc) (hconnections : t.connections =
      (s.setConnection fd (some { unread := [], peerClosed := false })).connections)
    (hnone : ∀ fd', partOf size s fd' = []) (hnone' : ∀ fd', partOf size t fd' = []) :
    Delivering size baseFd t (os ++ [⟨fd, .opened⟩]) := by
  refine ⟨hregistered, hroom, fun fd' c hc => ?_, closesComplete_append (by simp)⟩
  rw [hconnections] at hc
  rw [hnone']
  by_cases heq : fd = fd'
  · subst heq
    simp only [setConnection_connections_self, Option.some.injEq] at hc
    subst hc
    rw [ledger_append_self]
    exact .empty
  · simp only [setConnection_connections_of_ne _ (Ne.symm heq)] at hc
    have hframed := h.framed fd' c hc
    rw [hnone] at hframed
    rwa [ledger_append_ne heq]

theorem Delivering.received (h : Delivering size baseFd s os) {fd fd' totalRead count : Nat}
    {events : List Event} {c c' : Connection} (hpc : s.pc = .recv fd totalRead events)
    (hfd : s.connections fd = some c) (hunread : count ≤ c.unread.length)
    (hfd' : (s.setConnection fd (some { c with unread := c.unread.drop count })).connections fd' =
      some c') :
    (ledger fd' (os ++ [⟨fd, .received (c.unread.take count)⟩])).Framed size
      (if fd = fd' then
        assembled (writeBuffer s.buffer totalRead (c.unread.take count)) (totalRead + count)
      else []) c'.unread := by
  by_cases heq : fd = fd'
  · subst heq
    simp only [setConnection_connections_self, Option.some.injEq] at hfd'
    subst hfd'
    have htake : (c.unread.take count).length = count := by
      rw [List.length_take, Nat.min_eq_left hunread]
    have hbuffer := assembled_writeBuffer s.buffer totalRead (c.unread.take count)
    rw [htake] at hbuffer
    have hframed := h.framed fd c hfd
    simp only [partOf, hpc, if_true] at hframed
    rw [← List.take_append_drop count c.unread] at hframed
    rw [if_pos rfl, ledger_append_self, hbuffer]
    exact hframed.receive
  · simp only [setConnection_connections_of_ne _ (Ne.symm heq)] at hfd'
    have hframed := h.framed fd' c' hfd'
    simp only [partOf, hpc, if_neg heq] at hframed
    rwa [if_neg heq, ledger_append_ne heq]

theorem Delivering.thread (hsize : 0 < size) (h : Delivering size baseFd s os) {reply : Reply}
    (hcut : notCutShort size s (.thread reply) = true)
    (hempty : closesEmpty size baseFd s (.thread reply) = true)
    (hmove : ThreadMove size baseFd s reply t) :
    Delivering size baseFd t (os ++ connectionEvents size baseFd s (.thread reply)) := by
  have hregistered := h.registered.thread hmove
  have hroom := h.room
  cases hmove with
  | enter hpc | leave hpc | batchDone hpc | drainDone hpc | poll hpc | pollFailed hpc
  | acceptFailed hpc | drain hpc =>
      exact h.quiet hregistered (by simp [connectionEvents, hpc]) trivial rfl
        fun fd => by simp [partOf, hpc]
  | ignored hpc hbase hevent =>
      exact h.quiet hregistered (by simp [connectionEvents, hpc, hevent]) trivial rfl
        fun fd => by simp [partOf, hpc]
  | drainBase hpc hbase =>
      exact h.quiet hregistered (by simp [connectionEvents, hpc, hbase]) trivial rfl
        fun fd => by simp [partOf, hpc]
  | drained hpc hreply =>
      refine h.quiet hregistered ?_ trivial rfl fun fd => by simp [partOf, hpc]
      rcases hreply with rfl | rfl <;> simp [connectionEvents, hpc]
  | accept hpc hfd =>
      exact h.accept hregistered trivial rfl (fun fd' => by simp [partOf, hpc]) fun fd' => rfl
  | @hangUp e events hpc hbase hevent =>
      have hopen := h.registered.events e (by rw [hpc]; exact List.mem_cons_self) hbase
      obtain ⟨c, hc⟩ := Option.isSome_iff_exists.mp hopen
      simp only [connectionEvents, hpc, hevent, if_true]
      refine h.closed hsize hregistered hc ?_ trivial rfl fun fd' _ => by simp [partOf, hpc]
      simpa [closesEmpty, hpc, hevent, unreadOn, hc, partOf] using hempty
  | @drainClose e events hpc hbase =>
      have hopen := h.registered.events e (by rw [hpc]; exact List.mem_cons_self) hbase
      obtain ⟨c, hc⟩ := Option.isSome_iff_exists.mp hopen
      simp only [connectionEvents, hpc, if_neg hbase]
      refine h.closed hsize hregistered hc ?_ trivial rfl fun fd' _ => by simp [partOf, hpc]
      simpa [closesEmpty, hpc, hbase, unreadOn, hc, partOf] using hempty
  | @recvFailed fd totalRead events hpc =>
      have hopen := h.registered.assembling fd totalRead events (Or.inr hpc)
      obtain ⟨c, hc⟩ := Option.isSome_iff_exists.mp hopen
      simp only [connectionEvents, hpc]
      refine h.closed hsize hregistered hc ?_ trivial rfl fun fd' hne => ?_
      · simpa [closesEmpty, hpc, unreadOn, hc, partOf, length_assembled] using hempty
      · simp [partOf, hpc, Ne.symm hne]
  | readable hpc hbase hevent =>
      exact h.quiet hregistered (by simp [connectionEvents, hpc, hevent]) (Nat.zero_le _) rfl
        fun fd => by simp [partOf, hpc, assembled]
  | incomplete hpc hsize hrunning =>
      exact h.quiet hregistered (by simp [connectionEvents, hpc]) hsize rfl
        fun fd => by simp [partOf, hpc]
  | @assembled fd totalRead events hpc hexit =>
      rw [hpc] at hroom
      have hfull : size ≤ totalRead := by
        simp only [notCutShort, hpc, Bool.or_eq_true, decide_eq_true_eq] at hcut
        exact hcut.elim id fun hrunning => Nat.le_of_not_lt fun hlt => hexit ⟨hlt, hrunning⟩
      have hcomplete := Nat.le_antisymm hroom hfull
      refine h.quiet hregistered (by simp [connectionEvents, hpc]) trivial rfl fun fd' => ?_
      simp only [partOf, hpc, hcomplete]
      rfl
  | again hpc | endOfStream hpc =>
      rw [hpc] at hroom
      exact h.quiet hregistered (by simp [connectionEvents]) (Nat.le_of_lt hroom) rfl
        fun fd => by simp [partOf, hpc]
  | @data fd totalRead count events c hpc hfd hcount hroom' hunread =>
      rw [hpc] at hroom
      simp only [connectionEvents, hpc, hfd]
      refine ⟨hregistered, ?_, fun fd' c' hc' => ?_, closesComplete_append (by simp)⟩
      · change _ ≤ size
        simp only [Room] at hroom
        omega
      · exact h.received hpc hfd hunread hc'
  | @handled fd events hpc =>
      simp only [connectionEvents, hpc]
      refine ⟨hregistered, trivial, fun fd' c hc => ?_, closesComplete_append (by simp)⟩
      have hframed := h.framed fd' c hc
      simp only [partOf, hpc] at hframed ⊢
      by_cases heq : fd = fd'
      · subst heq
        rw [if_pos rfl] at hframed
        rw [ledger_append_self]
        exact hframed.handle (length_assembled s.buffer size)
      · rw [if_neg heq] at hframed
        rwa [ledger_append_ne heq]

theorem Delivering.step (hsize : 0 < size) (h : Delivering size baseFd s os)
    (hcut : notCutShort size s a = true) (hempty : closesEmpty size baseFd s a = true)
    (hstep : step size baseFd s a = some t) :
    Delivering size baseFd t (os ++ connectionEvents size baseFd s a) := by
  have hregistered := h.registered.step hstep
  cases move_of_step hstep with
  | connect | stop => exact h.quiet hregistered rfl h.room rfl fun _ => rfl
  | @arrive fd bytes c hfd =>
      refine ⟨hregistered, h.room, fun fd' c' hc' => ?_, closesComplete_append (by simp)⟩
      change Ledger.Framed size _ (partOf size s fd') c'.unread
      by_cases heq : fd = fd'
      · subst heq
        simp only [setConnection_connections_self, Option.some.injEq] at hc'
        subst hc'
        rw [connectionEvents, ledger_append_self]
        exact (h.framed fd c hfd).arrive bytes
      · simp only [setConnection_connections_of_ne _ (Ne.symm heq)] at hc'
        rw [connectionEvents, ledger_append_ne heq]
        exact h.framed fd' c' hc'
  | @peerClose fd c hfd =>
      simp only [connectionEvents, List.append_nil]
      refine ⟨hregistered, h.room, fun fd' c' hc' => ?_, h.closes⟩
      by_cases heq : fd' = fd
      · subst heq
        simp only [setConnection_connections_self, Option.some.injEq] at hc'
        subst hc'
        exact h.framed fd' c hfd
      · simp only [setConnection_connections_of_ne _ heq] at hc'
        exact h.framed fd' c' hc'
  | thread hmove => exact h.thread hsize hcut hempty hmove

/-- A step that closes a connection which still holds a complete message loses it. -/
theorem Delivering.empty_of_closesComplete (hsize : 0 < size) (h : Delivering size baseFd s os)
    (hstep : UnixSockIpcServer.step size baseFd s a = some t)
    (hcloses : ClosesComplete size t (os ++ connectionEvents size baseFd s a)) :
    closesEmpty size baseFd s a = true := by
  cases a with
  | thread reply =>
      cases threadMove_of_step hstep with
      | @hangUp e events hpc hbase hevent =>
          have hopen := h.registered.events e (by rw [hpc]; exact List.mem_cons_self) hbase
          obtain ⟨c, hc⟩ := Option.isSome_iff_exists.mp hopen
          simp only [connectionEvents, hpc, hevent, if_true] at hcloses
          have hshort := (closesComplete_closed_iff hsize (h.framed e.fd c hc)).mp hcloses
          simpa [closesEmpty, hpc, hevent, unreadOn, hc, partOf] using hshort
      | @drainClose e events hpc hbase =>
          have hopen := h.registered.events e (by rw [hpc]; exact List.mem_cons_self) hbase
          obtain ⟨c, hc⟩ := Option.isSome_iff_exists.mp hopen
          simp only [connectionEvents, hpc, if_neg hbase] at hcloses
          have hshort := (closesComplete_closed_iff hsize (h.framed e.fd c hc)).mp hcloses
          simpa [closesEmpty, hpc, hbase, unreadOn, hc, partOf] using hshort
      | @recvFailed fd totalRead events hpc =>
          have hopen := h.registered.assembling fd totalRead events (Or.inr hpc)
          obtain ⟨c, hc⟩ := Option.isSome_iff_exists.mp hopen
          simp only [connectionEvents, hpc] at hcloses
          have hshort := (closesComplete_closed_iff hsize (h.framed fd c hc)).mp hcloses
          simpa [closesEmpty, hpc, unreadOn, hc, partOf, length_assembled] using hshort
      | accept | poll | data | again | endOfStream | drain => rfl
      | drained hpc hreply => rcases hreply with rfl | rfl <;> simp [closesEmpty, hpc]
      | enter hpc | leave hpc | pollFailed hpc | batchDone hpc | acceptFailed hpc | incomplete hpc
      | assembled hpc | handled hpc | drainDone hpc => simp [closesEmpty, hpc]
      | readable hpc hbase hevent | ignored hpc hbase hevent => simp [closesEmpty, hpc, hevent]
      | drainBase hpc hbase => simp [closesEmpty, hpc, hbase]
  | connect | arrive | peerClose | stop => rfl

/-- **When no message is lost with a connection.** In every run that cuts no assembly short by a
stop, each connection has had all the complete messages that its peer sent handed to the handler
when the server closes it, if and only if at every close less than a message of that connection is
still to be received. -/
theorem closes_complete_iff (hsize : 0 < size) (baseFd : Nat) (buffer : Nat → UInt8)
    {acts : List Action}
    (hcut : (machine size baseFd).Steps (fun s a => notCutShort size s a = true) (initial buffer)
      acts) :
    (machine size baseFd).Throughout (connectionEvents size baseFd) (ClosesComplete size)
        (initial buffer) acts ↔
      (machine size baseFd).Steps (fun s a => closesEmpty size baseFd s a = true) (initial buffer)
        acts :=
  Machine.throughout_iff_steps_of (I := Delivering size baseFd)
    (fun _ _ _ _ h hcut hempty hstep => h.step hsize hcut hempty hstep) (fun _ _ h => h.closes)
    (fun _ _ _ _ h _ hstep hcloses => h.empty_of_closesComplete hsize hstep hcloses)
    (delivering_initial size baseFd buffer) hcut

/-- A client connects, and the server accepts. -/
def connected : List Action :=
  [.connect, .thread .none, .thread (.events [{ fd := 3, hangUp := false, readable := true }]),
    .thread (.accepted 5), .thread .none]

/-- The client's only message is handled before the client closes. -/
def readThenClosed : List Action :=
  connected ++ [.arrive 5 [7, 8], .thread .none,
    .thread (.events [{ fd := 5, hangUp := false, readable := true }]), .thread .none,
    .thread .none, .thread (.data 2), .thread .none, .thread .none, .thread .none, .peerClose 5,
    .thread .none, .thread (.events [{ fd := 5, hangUp := true, readable := true }]), .thread .none]

theorem closes_complete_read_then_closed :
    (machine 2 3).Throughout (connectionEvents 2 3) (ClosesComplete 2) (initial fun _ => 0)
      readThenClosed :=
  (closes_complete_iff (by decide) 3 (fun _ => 0) (by decide +kernel)).mpr (by decide +kernel)

/-- The client closes before the server polls again, which is told of a hang-up and of bytes to
read, and looks at the hang-up. -/
def sentThenClosed : List Action :=
  connected ++ [.arrive 5 [7, 8], .peerClose 5, .thread .none,
    .thread (.events [{ fd := 5, hangUp := true, readable := true }]), .thread .none]

theorem message_lost_at_hangUp :
    ¬ (machine 2 3).Throughout (connectionEvents 2 3) (ClosesComplete 2) (initial fun _ => 0)
      sentThenClosed := by
  intro hthroughout
  have hcloses := hthroughout sentThenClosed _ List.prefix_rfl rfl
    [⟨5, .opened⟩, ⟨5, .arrived [7, 8]⟩] 5 rfl
  exact absurd hcloses (by decide)

end MatrixTransposer.UnixSockIpcServer
