import MatrixTransposer.Proof.ServerThread

/-!
# The descriptors of a batch

`epoll_wait` reports a descriptor at most once, so closing one connection while the events of a
batch are looked at does not touch the connections of the events that follow. Each of them is still
registered when its turn comes, and so is the connection whose message is being assembled.
-/

namespace MatrixTransposer.UnixSockIpcServer

variable {size baseFd : Nat} {s t : State} {a : Action}

/-- The events that are still to be looked at. -/
def batch : Pc → List Event
  | .dispatch events | .assemble _ _ events | .recv _ _ events | .handle _ events
  | .drainClose events => events
  | .loop | .poll | .drain | .exited => []

/-- The descriptors the thread will come back to before it polls again. -/
def targets (pc : Pc) : List Nat :=
  match pc with
  | .assemble fd _ _ | .recv fd _ _ | .handle fd _ => fd :: (batch pc).map Event.fd
  | _ => (batch pc).map Event.fd

structure Registered (baseFd : Nat) (s : State) : Prop where
  distinct : (targets s.pc).Nodup
  events : ∀ e ∈ batch s.pc, e.fd ≠ baseFd → (s.connections e.fd).isSome = true
  assembling : ∀ fd totalRead events, s.pc = .assemble fd totalRead events ∨
    s.pc = .recv fd totalRead events → (s.connections fd).isSome = true

theorem registered_initial (baseFd : Nat) (buffer : Nat → UInt8) :
    Registered baseFd (initial buffer) where
  distinct := List.nodup_nil
  events := fun e he => by cases he
  assembling := fun fd totalRead events hpc => by rcases hpc with h | h <;> cases h

theorem isSome_setConnection_ne {fd fd' : Nat} (h : fd' ≠ fd) (c : Option Connection) :
    ((s.setConnection fd c).connections fd').isSome = (s.connections fd').isSome := by
  simp [setConnection_connections_of_ne _ h]

theorem isSome_setConnection_some {fd fd' : Nat} {c : Connection}
    (h : (s.connections fd').isSome = true) :
    ((s.setConnection fd (some c)).connections fd').isSome = true := by
  by_cases heq : fd' = fd
  · simp [State.setConnection, heq]
  · rwa [isSome_setConnection_ne heq]

/-- A step that goes on in the batch and leaves the connections of the rest of it alone. -/
theorem Registered.next (h : Registered baseFd s) (htargets : (targets t.pc).Sublist (targets s.pc))
    (hbatch : batch t.pc ⊆ batch s.pc)
    (hopen : ∀ e ∈ batch t.pc, (s.connections e.fd).isSome = true →
      (t.connections e.fd).isSome = true)
    (hassembling : ∀ fd totalRead events, t.pc = .assemble fd totalRead events ∨
      t.pc = .recv fd totalRead events → (t.connections fd).isSome = true) :
    Registered baseFd t where
  distinct := h.distinct.sublist htargets
  events := fun e he hbase => hopen e he (h.events e (hbatch he) hbase)
  assembling := hassembling

/-- Outside a batch there is nothing to keep. -/
theorem registered_of_batch_nil (htargets : targets t.pc = []) : Registered baseFd t := by
  have hbatch : batch t.pc = [] := by
    cases hpc : t.pc <;> simp_all [targets, batch]
  refine ⟨htargets ▸ List.nodup_nil, fun e he => ?_, ?_⟩
  · rw [hbatch] at he
    cases he
  · rintro fd totalRead events (hpc | hpc) <;> simp [hpc, targets] at htargets

theorem registered_of_deliverable {events : List Event} (hevents : Deliverable baseFd s events)
    (htargets : targets t.pc = events.map Event.fd) (hbatch : batch t.pc = events)
    (hsame : t.connections = s.connections)
    (hpc : ∀ fd totalRead rest, ¬ (t.pc = .assemble fd totalRead rest ∨
      t.pc = .recv fd totalRead rest)) : Registered baseFd t where
  distinct := htargets ▸ hevents.2.1
  events := by
    intro e he hbase
    obtain ⟨c, hc, _⟩ := hevents.2.2 e (hbatch ▸ he) hbase
    rw [hsame, hc]
    rfl
  assembling := fun fd totalRead rest h => absurd h (hpc fd totalRead rest)

/-- Closing a connection that the rest of the batch does not name. -/
theorem Registered.dropped (h : Registered baseFd s) {fd : Nat}
    (htargets : (targets t.pc).Sublist (targets s.pc)) (hbatch : batch t.pc ⊆ batch s.pc)
    (hfresh : fd ∉ (batch t.pc).map Event.fd)
    (hconnections : t.connections = (s.setConnection fd none).connections)
    (hassembling : ∀ fd totalRead events, ¬ (t.pc = .assemble fd totalRead events ∨
      t.pc = .recv fd totalRead events)) : Registered baseFd t := by
  refine h.next htargets hbatch ?_ fun fd totalRead events hpc =>
    absurd hpc (hassembling fd totalRead events)
  intro e he hopen
  have hne : e.fd ≠ fd := by
    rintro rfl
    exact hfresh (List.mem_map_of_mem he)
  rw [hconnections, isSome_setConnection_ne hne]
  exact hopen

theorem Registered.thread (h : Registered baseFd s) {reply : Reply}
    (hmove : ThreadMove size baseFd s reply t) : Registered baseFd t := by
  cases hmove with
  | enter | leave | pollFailed | batchDone | drained | drainDone =>
      exact registered_of_batch_nil rfl
  | poll hpc hevents | drain hpc hevents =>
      exact registered_of_deliverable hevents rfl rfl rfl (by simp)
  | acceptFailed hpc | ignored hpc | drainBase hpc | handled hpc | assembled hpc =>
      refine h.next ?_ ?_ (fun _ _ => id) (by simp) <;> simp [targets, batch, hpc]
  | accept hpc hfd =>
      refine h.next ?_ ?_ (fun _ _ => isSome_setConnection_some) (by simp) <;>
        simp [targets, batch, hpc]
  | hangUp hpc | drainClose hpc | recvFailed hpc =>
      have hdistinct := h.distinct
      rw [hpc] at hdistinct
      refine h.dropped ?_ ?_ (List.nodup_cons.mp hdistinct).1 rfl (by simp) <;>
        simp [targets, batch, hpc]
  | readable hpc hbase =>
      have hopen := h.events _ (by rw [hpc]; exact List.mem_cons_self) hbase
      refine h.next ?_ ?_ (fun _ _ => id) ?_
      · simp [targets, batch, hpc]
      · simp [batch, hpc]
      · simpa using hopen
  | incomplete hpc hsize hrunning =>
      have hopen := h.assembling _ _ _ (Or.inl hpc)
      refine h.next ?_ ?_ (fun _ _ => id) ?_
      · simp [targets, batch, hpc]
      · simp [batch, hpc]
      · simpa using hopen
  | again hpc | endOfStream hpc =>
      have hopen := h.assembling _ _ _ (Or.inr hpc)
      refine h.next ?_ ?_ (fun _ _ => id) ?_
      · simp [targets, batch, hpc]
      · simp [batch, hpc]
      · simpa using hopen
  | data hpc hfd =>
      have hopen := h.assembling _ _ _ (Or.inr hpc)
      refine h.next ?_ ?_ (fun _ _ => isSome_setConnection_some) ?_
      · simp [targets, batch, hpc]
      · simp [batch, hpc]
      · simp [State.setConnection]

/-- In every reachable state the events of the batch have distinct, registered descriptors. -/
theorem Registered.step (h : Registered baseFd s) (hstep : step size baseFd s a = some t) :
    Registered baseFd t := by
  cases move_of_step hstep with
  | connect | stop => exact { h with }
  | arrive | peerClose =>
      exact ⟨h.distinct, fun e he hbase => isSome_setConnection_some (h.events e he hbase),
        fun fd totalRead events hpc => isSome_setConnection_some (h.assembling _ _ _ hpc)⟩
  | thread hmove => exact h.thread hmove

end MatrixTransposer.UnixSockIpcServer
