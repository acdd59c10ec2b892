import MatrixTransposer.Proof.ServerBatch
import Mathlib.Data.Set.Card

/-!
# The open connections

The descriptors of the connections that `ServerThread` has accepted and not closed. A step of the
server or of a peer opens one, closes one, or leaves them as they are. What happens to the count of
them depends on the loop: the main loop counts along, the drain loop does not.
-/

namespace MatrixTransposer.UnixSockIpcServer

variable {size baseFd : Nat} {s t : State} {a : Action}

def State.openFds (s : State) : Set Nat := {fd | (s.connections fd).isSome = true}

theorem openFds_setConnection_some (s : State) (fd : Nat) (c : Connection) :
    (s.setConnection fd (some c)).openFds = insert fd s.openFds := by
  ext fd'
  by_cases heq : fd' = fd
  · simp [State.openFds, State.setConnection, heq]
  · simp [State.openFds, setConnection_connections_of_ne s heq, heq]

theorem openFds_setConnection_none (s : State) (fd : Nat) :
    (s.setConnection fd none).openFds = s.openFds \ {fd} := by
  ext fd'
  by_cases heq : fd' = fd
  · simp [State.openFds, State.setConnection, heq]
  · simp [State.openFds, setConnection_connections_of_ne s heq, heq]

/-- New bytes or the end of the stream on an open connection. -/
theorem openFds_setConnection_of_open {fd : Nat} {c : Connection} (hfd : s.connections fd = some c)
    (c' : Connection) : (s.setConnection fd (some c')).openFds = s.openFds := by
  rw [openFds_setConnection_some, Set.insert_eq_of_mem]
  simp [State.openFds, hfd]

/-- What a step does to the open connections and to the count of them. -/
inductive CountMove (s : State) : Action → State → Prop where
  | same {a : Action} {t : State} (hopen : t.openFds = s.openFds)
      (hcount : t.connectionCount = s.connectionCount) : CountMove s a t
  | opened {fd : Nat} {t : State} (hnew : fd ∉ s.openFds) (hopen : t.openFds = insert fd s.openFds)
      (hcount : t.connectionCount = s.connectionCount + 1) : CountMove s (.thread (.accepted fd)) t
  | closed {fd : Nat} {reply : Reply} {t : State} (hold : fd ∈ s.openFds)
      (hopen : t.openFds = s.openFds \ {fd}) (hcount : t.connectionCount = s.connectionCount - 1) :
      CountMove s (.thread reply) t
  | drained {fd : Nat} {reply : Reply} {t : State} (hdraining : Draining t.pc = true)
      (hopen : t.openFds = s.openFds \ {fd}) (hcount : t.connectionCount = s.connectionCount) :
      CountMove s (.thread reply) t

theorem countMove_of_step (hs : Registered baseFd s) (h : step size baseFd s a = some t) :
    CountMove s a t := by
  cases move_of_step h with
  | connect | stop => exact .same rfl rfl
  | arrive hfd | peerClose hfd => exact .same (openFds_setConnection_of_open hfd _) rfl
  | thread hmove =>
      cases hmove with
      | @accept _ _ fd hpc hfd =>
          have hnew : fd ∉ s.openFds := by simp [State.openFds, hfd]
          exact .opened hnew (openFds_setConnection_some s _ _) rfl
      | data hpc hfd => exact .same (openFds_setConnection_of_open hfd _) rfl
      | hangUp hpc hbase =>
          have hopen := hs.events _ (by rw [hpc]; exact List.mem_cons_self) hbase
          exact .closed hopen (openFds_setConnection_none s _) rfl
      | recvFailed hpc =>
          have hopen := hs.assembling _ _ _ (.inr hpc)
          exact .closed hopen (openFds_setConnection_none s _) rfl
      | drainClose hpc => exact .drained rfl (openFds_setConnection_none s _) rfl
      | _ => exact .same rfl rfl

theorem CountMove.finite (h : CountMove s a t) (hs : s.openFds.Finite) : t.openFds.Finite := by
  cases h with
  | same hopen => rwa [hopen]
  | opened _ hopen =>
      rw [hopen]
      exact hs.insert _
  | closed _ hopen | drained _ hopen =>
      rw [hopen]
      exact hs.sdiff

theorem registered_finite_of_reachable (hs : (machine size baseFd).Reachable s) :
    Registered baseFd s ∧ s.openFds.Finite := by
  refine hs.invariant (I := fun s => Registered baseFd s ∧ s.openFds.Finite) ?_ ?_
  · rintro _ ⟨buffer, rfl⟩
    exact ⟨registered_initial baseFd buffer, by simp [State.openFds, initial]⟩
  · intro s a t ⟨hregistered, hfinite⟩ hstep
    exact ⟨hregistered.step hstep, (countMove_of_step hregistered hstep).finite hfinite⟩

end MatrixTransposer.UnixSockIpcServer
