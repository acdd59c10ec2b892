import MatrixTransposer.Proof.ServerThread

/-!
# Leaving the assembly loop

When a peer has closed, `recv` gives the bytes that are left and then 0, again and again. The loop
that assembles a message tests neither for 0 nor for anything else that an end of stream changes, so
whether it is left is decided by the bytes: they complete the message, or the thread stays.
-/

namespace MatrixTransposer.UnixSockIpcServer

open Lib

variable {size baseFd fd totalRead : Nat} {s t : State} {a : Action} {acts : List Action}
  {unread : List UInt8}

/-- The thread assembles a message of this connection. -/
def inLoop (fd : Nat) (s : State) : Bool :=
  match s.pc with
  | .assemble fd' _ _ | .recv fd' _ _ => fd' = fd
  | _ => false

def receives : Action → Bool
  | .thread (.data _) | .thread .endOfStream => true
  | _ => false

/-- The server is not stopped, and `recv` neither fails nor has to wait for anything: all bytes and
the end of the stream are there. -/
def settled (s : State) : Action → Bool
  | .stop => false
  | .thread .again | .thread .failed =>
      match s.pc with
      | .recv .. => false
      | _ => true
  | _ => true

def settledMachine (size baseFd : Nat) : Lib.Machine State Action where
  init := (machine size baseFd).init
  step s a := if settled s a then step size baseFd s a else none

/-- Some number of `recv` calls is exceeded by no run before it has left the loop. -/
def LeavesLoop (size baseFd fd : Nat) (s : State) : Prop :=
  ∃ bound, ∀ acts t, (settledMachine size baseFd).exec s acts = some t →
    (∃ before after u, acts = before ++ after ∧
      (settledMachine size baseFd).exec s before = some u ∧ inLoop fd u = false) ∨
    acts.countP receives ≤ bound

/-- The thread holds `totalRead` bytes of a message whose peer has closed with `unread` left. -/
structure Reading (size fd : Nat) (s : State) (totalRead : Nat) (unread : List UInt8) : Prop where
  pc : ∃ events, s.pc = .assemble fd totalRead events ∨
    totalRead < size ∧ s.pc = .recv fd totalRead events
  connection : s.connections fd = some { unread := unread, peerClosed := true }
  running : s.running = true

theorem Reading.inLoop (h : Reading size fd s totalRead unread) : inLoop fd s = true := by
  obtain ⟨events, hpc | ⟨_, hpc⟩⟩ := h.pc <;> simp [UnixSockIpcServer.inLoop, hpc]

/-- What the peer has left after `recv` has given some bytes. -/
inductive Received (size totalRead : Nat) (unread : List UInt8) : Nat → Prop where
  | some {count : Nat} (hpos : 0 < count) (hroom : count ≤ size - totalRead)
      (hunread : count ≤ unread.length) : Received size totalRead unread count
  | endOfStream (hunread : unread = []) : Received size totalRead unread 0

/-- One test of the loop, or one call of `recv`. -/
theorem Reading.thread (h : Reading size fd s totalRead unread) {reply : Reply}
    (hsettled : settled s (.thread reply) = true)
    (hstep : threadStep size baseFd s reply = some t) :
    (size ≤ totalRead ∧ UnixSockIpcServer.inLoop fd t = false) ∨
      (receives (.thread reply) = false ∧ Reading size fd t totalRead unread) ∨
      ∃ count, totalRead < size ∧ Received size totalRead unread count ∧
        Reading size fd t (totalRead + count) (unread.drop count) := by
  obtain ⟨⟨events, hpc | ⟨hlt, hpc⟩⟩, hconnection, hrunning⟩ := h
  · simp only [threadStep, hpc] at hstep
    obtain ⟨rfl, rfl⟩ := silentStep_eq_some hstep
    by_cases hlt : totalRead < size
    · rw [if_pos ⟨hlt, hrunning⟩]
      exact Or.inr (Or.inl ⟨rfl, ⟨events, Or.inr ⟨hlt, rfl⟩⟩, hconnection, hrunning⟩)
    · rw [if_neg fun hand => hlt hand.1]
      exact Or.inl ⟨Nat.le_of_not_lt hlt, rfl⟩
  · simp only [threadStep, hpc] at hstep
    have hmove : ThreadMove size baseFd s reply t := recvMove_of_step hpc hstep
    cases hmove with
    | @data _ _ count _ c hpc' hfd hcount hroom hunread =>
        cases hpc.symm.trans hpc'
        cases hconnection.symm.trans hfd
        exact Or.inr (Or.inr ⟨count, hlt, .some hcount hroom hunread, ⟨events, Or.inl rfl⟩,
          Function.update_self _ _ _, hrunning⟩)
    | @endOfStream _ _ _ c hpc' hfd hunread hclosed =>
        cases hpc.symm.trans hpc'
        cases hconnection.symm.trans hfd
        exact Or.inr (Or.inr ⟨0, hlt, .endOfStream hunread, ⟨events, Or.inl rfl⟩, hconnection,
          hrunning⟩)
    | again hpc' | recvFailed hpc' => simp [settled, hpc] at hsettled
    | enter hpc' | leave hpc' | poll hpc' | pollFailed hpc' | batchDone hpc' | accept hpc'
    | acceptFailed hpc' | hangUp hpc' | readable hpc' | ignored hpc' | incomplete hpc'
    | assembled hpc' | handled hpc' | drained hpc' | drain hpc' | drainDone hpc' | drainBase hpc'
    | drainClose hpc' => cases hpc.symm.trans hpc'

/-- What the other peers do leaves the loop and its connection alone. -/
theorem Reading.setConnection (h : Reading size fd s totalRead unread) {fd' : Nat}
    {c : Connection} (hne : fd' = fd → c = { unread := unread, peerClosed := true }) :
    Reading size fd (s.setConnection fd' (some c)) totalRead unread := by
  refine ⟨h.pc, ?_, h.running⟩
  by_cases heq : fd = fd'
  · subst heq
    rw [hne rfl]
    exact Function.update_self _ _ _
  · exact (Function.update_of_ne heq _ _).trans h.connection

theorem Reading.step (h : Reading size fd s totalRead unread)
    (hstep : (settledMachine size baseFd).step s a = some t) :
    (size ≤ totalRead ∧ UnixSockIpcServer.inLoop fd t = false) ∨
      (receives a = false ∧ Reading size fd t totalRead unread) ∨
      ∃ count, totalRead < size ∧ Received size totalRead unread count ∧
        Reading size fd t (totalRead + count) (unread.drop count) := by
  obtain ⟨hsettled, hstep⟩ := Option.ite_none_right_eq_some.mp hstep
  cases move_of_step hstep with
  | connect => exact Or.inr (Or.inl ⟨rfl, h.pc, h.connection, h.running⟩)
  | arrive hfd hopen =>
      refine Or.inr (Or.inl ⟨rfl, h.setConnection ?_⟩)
      -- nothing arrives from the peer that has closed
      rintro rfl
      cases h.connection.symm.trans hfd
      cases hopen
  | peerClose hfd =>
      refine Or.inr (Or.inl ⟨rfl, h.setConnection ?_⟩)
      rintro rfl
      cases h.connection.symm.trans hfd
      rfl
  | stop => cases hsettled
  | thread => exact h.thread hsettled hstep

/-! ## Enough bytes -/

/-- Every call of `recv` brings the message nearer to its end. -/
theorem leavesLoop_of_le (h : Reading size fd s totalRead unread)
    (henough : size ≤ totalRead + unread.length) : LeavesLoop size baseFd fd s := by
  let Left : State → Nat → Prop := fun u n => ∃ totalRead unread,
    Reading size fd u totalRead unread ∧ size ≤ totalRead + unread.length ∧ n = size - totalRead
  have hstep : ∀ u a v n, True → Left u n → (settledMachine size baseFd).step u a = some v →
      UnixSockIpcServer.inLoop fd v = false ∨
        ∃ m, Left v m ∧ m + (if receives a then 1 else 0) ≤ n := by
    rintro u a v n - ⟨totalRead, unread, hu, henough, rfl⟩ hstep
    rcases hu.step hstep with ⟨_, hleft⟩ | ⟨hquiet, hv⟩ | ⟨count, hlt, hreceived, hv⟩
    · exact Or.inl hleft
    · exact Or.inr ⟨_, ⟨totalRead, unread, hv, henough, rfl⟩, by simp [hquiet]⟩
    · right
      cases hreceived with
      | some hpos hroom hunread =>
          refine ⟨_, ⟨_, _, hv, ?_, rfl⟩, ?_⟩
          · rw [List.length_drop]
            omega
          · split <;> omega
      | endOfStream hunread =>
          -- the stream has not ended yet
          rw [hunread, List.length_nil] at henough
          omega
  refine ⟨size - totalRead, fun acts t hrun => ?_⟩
  rcases Machine.exec_reaches hstep ⟨totalRead, unread, h, henough, rfl⟩
    (fun _ _ _ _ => trivial) hrun with ⟨before, after, u, hacts, hbefore, _, hleft⟩ | ⟨m, _, hm⟩
  · exact Or.inl ⟨before, after, u, hacts, hbefore, hleft⟩
  · exact Or.inr (by omega)

/-! ## Too few bytes -/

/-- The bytes that are left do not complete the message. -/
def Starved (size fd : Nat) (s : State) : Prop :=
  ∃ totalRead unread, Reading size fd s totalRead unread ∧ totalRead + unread.length < size

theorem Starved.step (h : Starved size fd s)
    (hstep : (settledMachine size baseFd).step s a = some t) : Starved size fd t := by
  obtain ⟨totalRead, unread, hs, hshort⟩ := h
  rcases hs.step hstep with ⟨hfull, _⟩ | ⟨_, ht⟩ | ⟨count, _, hreceived, ht⟩
  · omega
  · exact ⟨totalRead, unread, ht, hshort⟩
  · refine ⟨_, _, ht, ?_⟩
    cases hreceived with
    | some hpos hroom hunread =>
        rw [List.length_drop]
        omega
    | endOfStream => exact hshort

theorem Starved.inLoop (h : Starved size fd s) : UnixSockIpcServer.inLoop fd s = true := by
  obtain ⟨_, _, hs, _⟩ := h
  exact hs.inLoop

/-- `recv` answers whatever the peer has left, at the end with 0. -/
theorem recv_answers (baseFd : Nat) {events : List Event}
    (hs : Reading size fd s totalRead unread) (hshort : totalRead + unread.length < size)
    (hpc : s.pc = .recv fd totalRead events) :
    ∃ a t, (settledMachine size baseFd).step s a = some t ∧ receives a = true := by
  have henabled : ∃ a, ((settledMachine size baseFd).step s a).isSome = true ∧
      receives a = true := by
    by_cases hend : unread = []
    · refine ⟨.thread .endOfStream, ?_, rfl⟩
      simp [settledMachine, settled, step, threadStep, recvStep, hpc, hs.connection, hend]
    · have hpos := List.length_pos_iff.mpr hend
      have hroom : unread.length ≤ size - totalRead := by omega
      refine ⟨.thread (.data unread.length), ?_, rfl⟩
      simp [settledMachine, settled, step, threadStep, recvStep, hpc, hs.connection, hpos, hroom]
  obtain ⟨a, henabled, hreceives⟩ := henabled
  obtain ⟨t, hstep⟩ := Option.isSome_iff_exists.mp henabled
  exact ⟨a, t, hstep, hreceives⟩

/-- From a starved state one more call of `recv` is always to come. -/
theorem Starved.exists_recv (baseFd : Nat) (h : Starved size fd s) :
    ∃ acts t, (settledMachine size baseFd).exec s acts = some t ∧ acts.countP receives = 1 := by
  obtain ⟨totalRead, unread, hs, hshort⟩ := h
  obtain ⟨events, hpc | ⟨_, hpc⟩⟩ := hs.pc
  · -- the loop's test comes first
    have hlt : totalRead < size := by omega
    have htest : (settledMachine size baseFd).step s (.thread .none) =
        some { s with pc := .recv fd totalRead events } := by
      simp [settledMachine, settled, UnixSockIpcServer.step, threadStep, silentStep, hpc,
        hs.running, hlt]
    obtain ⟨a, t, hstep, hreceives⟩ := recv_answers baseFd
      (s := { s with pc := .recv fd totalRead events })
      ⟨⟨events, Or.inr ⟨hlt, rfl⟩⟩, hs.connection, hs.running⟩ hshort rfl
    have hquiet : receives (.thread .none) = false := rfl
    refine ⟨[.thread .none, a], t, ?_, by simp [hreceives, hquiet]⟩
    exact Machine.exec_cons_eq_some.mpr ⟨_, htest, Machine.exec_singleton.mpr hstep⟩
  · obtain ⟨a, t, hstep, hreceives⟩ := recv_answers baseFd hs hshort hpc
    exact ⟨[a], t, Machine.exec_singleton.mpr hstep, by simp [hreceives]⟩

theorem Starved.exec (h : Starved size fd s)
    (hrun : (settledMachine size baseFd).exec s acts = some t) : Starved size fd t :=
  Machine.exec_preserves (I := Starved size fd) (fun _ _ _ hs hstep => hs.step hstep) h hrun

/-- The loop goes on for ever: it makes any number of calls of `recv`. -/
theorem Starved.exists_recvs (baseFd : Nat) (h : Starved size fd s) (n : Nat) :
    ∃ acts t, (settledMachine size baseFd).exec s acts = some t ∧ acts.countP receives = n := by
  induction n generalizing s with
  | zero => exact ⟨[], s, rfl, rfl⟩
  | succ n ih =>
      obtain ⟨first, r, hfirst, hone⟩ := h.exists_recv baseFd
      obtain ⟨rest, t, hrest, hn⟩ := ih (h.exec hfirst)
      exact ⟨first ++ rest, t, Machine.exec_append_eq_some.mpr ⟨r, hfirst, hrest⟩,
        by rw [List.countP_append, hone, hn, Nat.add_comm]⟩

theorem Starved.not_leavesLoop (h : Starved size fd s) : ¬ LeavesLoop size baseFd fd s := by
  rintro ⟨bound, hbound⟩
  obtain ⟨acts, t, hrun, hcount⟩ := h.exists_recvs baseFd (bound + 1)
  rcases hbound acts t hrun with ⟨before, after, u, _, hbefore, hleft⟩ | hle
  · rw [(h.exec hbefore).inLoop] at hleft
    cases hleft
  · omega

/-- A client sends a byte of a message of two bytes and closes its side. -/
def halfSent : List Action :=
  [.connect, .thread .none, .thread (.events [{ fd := 3, hangUp := false, readable := true }]),
    .thread (.accepted 5), .thread .none, .arrive 5 [7], .thread .none,
    .thread (.events [{ fd := 5, hangUp := false, readable := true }]), .thread .none,
    .peerClose 5]

end MatrixTransposer.UnixSockIpcServer
