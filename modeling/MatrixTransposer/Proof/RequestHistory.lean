import MatrixTransposer.Proof.ClientBankHandoff
import MatrixTransposer.Proof.RequestMoves

/-!
# The history of a client's requests

The dispatcher works on one client at a time, the one whose context is in the slot it uses; the
handler does not touch that context meanwhile. So each client sees the steps of its own `main` and
of the work on it, and its history is made of rounds.
-/

namespace MatrixTransposer.RequestCycle

open Lib ClientBankHandoff

variable {uninitialized : Int32} {s t : State} {pid : UInt32} {slot : Fin maxClients}

/-- The steps of the system, one constructor for each thing that moves. -/
inductive Move (uninitialized : Int32) (s : State) : Action → State → Prop where
  | client {pid : UInt32} {c : Client} (hstep : (s.clients pid).step = some c) :
      Move uninitialized s (.client pid) (s.setClient pid c)
  | interrupt {pid : UInt32} {futex : FutexSignaller.State Party}
      (hstep : FutexSignaller.step (s.clients pid).futex (.interrupt .client) = some futex) :
      Move uninitialized s (.interrupt pid)
        (s.setClient pid { s.clients pid with futex := futex })
  | serve {times : Option (UInt64 × UInt64)} {slot : Fin maxClients} {pid : UInt32} {c : Client}
      {work : WorkPc} (huse : s.server.dispatcher = .use slot)
      (hpid : s.work.clientPid (s.server.workspace.clientBank slot) = some pid)
      (hstep : (s.clients pid).serve s.work = some (c, work)) :
      Move uninitialized s (.server (.dispatcher times)) { s.setClient pid c with work := work }
  | leave {times : Option (UInt64 × UInt64)} {slot : Fin maxClients} {served : Bool}
      {server : ClientBankHandoff.State} (huse : s.server.dispatcher = .use slot)
      (hwork : s.work = .leave served)
      (hstep : ClientBankHandoff.dispatcherStep s.server times = some server) :
      Move uninitialized s (.server (.dispatcher times))
        { s with server := server, work := .callDequeue }
  | scan {times : Option (UInt64 × UInt64)} {server : ClientBankHandoff.State}
      (huse : ∀ slot, s.server.dispatcher ≠ .use slot)
      (hstep : ClientBankHandoff.dispatcherStep s.server times = some server) :
      Move uninitialized s (.server (.dispatcher times)) { s with server := server }
  | handle {a : ClientBankHandoff.Action} {server : ClientBankHandoff.State}
      (ha : ∀ times, a ≠ .dispatcher times)
      (hstep : ClientBankHandoff.step uninitialized s.server a = some server) :
      Move uninitialized s (.server a) { s with server := server }

theorem move_of_dispatcherStep {times : Option (UInt64 × UInt64)}
    (h : dispatcherStep s times = some t) :
    Move uninitialized s (.server (.dispatcher times)) t := by
  cases hpc : s.server.dispatcher with
  | use slot =>
      simp only [dispatcherStep, hpc] at h
      split at h
      case h_1 served hwork =>
        split at h
        case isTrue =>
          obtain ⟨server, hstep, rfl⟩ := Option.map_eq_some_iff.mp h
          exact .leave hpc hwork hstep
        case isFalse => cases h
      case h_2 =>
        obtain ⟨pid, hpid, hserve⟩ := Option.bind_eq_some_iff.mp h
        obtain ⟨⟨c, work⟩, hstep, rfl⟩ := Option.map_eq_some_iff.mp hserve
        exact .serve hpc hpid hstep
  | loop | loadFlag | loadBits | clearFlag | scan | exited =>
      simp only [dispatcherStep, hpc] at h
      obtain ⟨server, hstep, rfl⟩ := Option.map_eq_some_iff.mp h
      apply Move.scan _ hstep
      intro slot huse
      rw [hpc] at huse
      cases huse

theorem move_of_step {a : Action} (h : step uninitialized s a = some t) :
    Move uninitialized s a t := by
  cases a with
  | client pid =>
      obtain ⟨c, hstep, rfl⟩ := Option.map_eq_some_iff.mp h
      exact .client hstep
  | interrupt pid =>
      obtain ⟨futex, hstep, rfl⟩ := Option.map_eq_some_iff.mp h
      exact .interrupt hstep
  | server a =>
      cases a with
      | dispatcher times => exact move_of_dispatcherStep h
      | add | remove | handler =>
          obtain ⟨server, hstep, rfl⟩ := Option.map_eq_some_iff.mp h
          exact .handle (by simp) hstep
      | stop =>
          cases h
          exact .handle (by simp) rfl

@[simp] theorem setClient_clients_self (s : State) (pid : UInt32) (c : Client) :
    (s.setClient pid c).clients pid = c :=
  Function.update_self _ _ _

theorem setClient_clients_of_ne (s : State) {p : UInt32} (h : pid ≠ p) (c : Client) :
    (s.setClient p c).clients pid = s.clients pid :=
  Function.update_of_ne h _ _

/-! ## The server -/

/-- The steps of the server by itself. Its step on a slot is taken when the work is finished. -/
def serverSteps (s : State) : Action → List ClientBankHandoff.Action
  | .server (.dispatcher times) =>
      match s.server.dispatcher with
      | .use slot =>
          if (s.work.clientPid (s.server.workspace.clientBank slot)).isSome then []
          else [.dispatcher times]
      | _ => [.dispatcher times]
  | .server a => [a]
  | .client _ | .interrupt _ => []

theorem exec_serverSteps {a : Action} (hstep : step uninitialized s a = some t) :
    (ClientBankHandoff.machine uninitialized).exec s.server (serverSteps s a) = some t.server := by
  cases move_of_step hstep with
  | client | interrupt => rfl
  | serve huse hpid =>
      simp only [serverSteps, huse, hpid, Option.isSome_some, if_true]
      rfl
  | leave huse hleave hdispatcher =>
      simp only [serverSteps, huse, hleave, WorkPc.clientPid, Option.isSome_none,
        Bool.false_eq_true, if_false]
      exact Machine.exec_singleton.mpr hdispatcher
  | scan huse hdispatcher =>
      cases hpc : s.server.dispatcher with
      | use slot => exact absurd hpc (huse slot)
      | loop | loadFlag | loadBits | clearFlag | scan | exited =>
          simp only [serverSteps, hpc]
          exact Machine.exec_singleton.mpr hdispatcher
  | @handle a server ha hhandle =>
      cases a with
      | dispatcher times => exact absurd rfl (ha times)
      | add | remove | handler | stop => exact Machine.exec_singleton.mpr hhandle

/-- The server of the request cycle behaves as the server by itself, whatever its clients do. -/
theorem server_reachable (h : (machine uninitialized).Reachable s) :
    (ClientBankHandoff.machine uninitialized).Reachable s.server := by
  have hinit : ∀ s, (machine uninitialized).init s →
      (ClientBankHandoff.machine uninitialized).init s.server := by
    rintro s ⟨serverPid, k, requestRepetitions, rfl⟩
    exact ⟨serverPid, rfl⟩
  exact Machine.Reachable.project hinit (fun s a t hstep => exec_serverSteps hstep) h

structure ServerInv (s : State) : Prop where
  flag : FlagInv s.server
  bank : BankInv s.server
  /-- The dispatcher takes up a slot at the beginning of its work. -/
  work : (∀ slot, s.server.dispatcher ≠ .use slot) → s.work = .callDequeue

/-- The handler changes neither where the dispatcher stands, nor its copy of the bit set. -/
theorem dispatcher_of_handle {server server' : ClientBankHandoff.State}
    {a : ClientBankHandoff.Action} (ha : ∀ times, a ≠ .dispatcher times)
    (hstep : ClientBankHandoff.step uninitialized server a = some server') :
    server'.dispatcher = server.dispatcher ∧
      server'.localValidClientsBitSet = server.localValidClientsBitSet := by
  cases ClientBankHandoff.move_of_step hstep with
  | add | remove | handler | stop => exact ⟨rfl, rfl⟩
  | dispatcher => exact absurd rfl (ha _)

theorem serverInv_initial {serverPid : UInt32} {k requestRepetitions : UInt32 → UInt32} :
    ServerInv (initial serverPid k requestRepetitions) := by
  obtain ⟨hflag, hbank⟩ := ClientBankHandoff.inv_of_reachable
    (Machine.Reachable.of_init (M := ClientBankHandoff.machine 0) ⟨serverPid, rfl⟩)
  exact ⟨hflag, hbank, fun _ => rfl⟩

theorem serverInv_step {a : Action} (h : ServerInv s) (hstep : step uninitialized s a = some t) :
    ServerInv t := by
  obtain ⟨hflag, hbank⟩ := Machine.exec_preserves (I := fun s => FlagInv s ∧ BankInv s)
    (fun _ _ _ hs hstep => ⟨flagInv_step hs.1 hstep, bankInv_step hs.1 hs.2 hstep⟩)
    ⟨h.flag, h.bank⟩ (exec_serverSteps hstep)
  refine ⟨hflag, hbank, ?_⟩
  intro hrest
  cases move_of_step hstep with
  | client | interrupt => exact h.work hrest
  | serve huse => exact absurd huse (hrest _)
  | leave => rfl
  | scan huse => exact h.work huse
  | handle ha hhandle =>
      rw [(dispatcher_of_handle ha hhandle).1] at hrest
      exact h.work hrest

theorem serverInv_of_reachable (h : (machine uninitialized).Reachable s) : ServerInv s := by
  apply Machine.Reachable.invariant ?_ (fun _ _ _ hs hstep => serverInv_step hs hstep) h
  rintro s ⟨serverPid, k, requestRepetitions, rfl⟩
  exact serverInv_initial

/-- Nor does it change a context whose bit is set. -/
theorem ServerInv.clientBank_of_handle (h : ServerInv s) {server : ClientBankHandoff.State}
    {a : ClientBankHandoff.Action} (ha : ∀ times, a ≠ .dispatcher times)
    (hstep : ClientBankHandoff.step uninitialized s.server a = some server)
    (hset : getBit s.server.localValidClientsBitSet slot = true ∨
      getBit s.server.workspace.validClientsBitSet slot = true) :
    server.workspace.clientBank slot = s.server.workspace.clientBank slot := by
  cases ClientBankHandoff.move_of_step hstep with
  | add | remove | stop => rfl
  | handler hmove =>
      apply clientBank_of_move hmove
      intro hwrites
      obtain ⟨hvalid, hcopy⟩ := clear_of_writes h.bank.slot h.flag.1 hwrites
      rw [hvalid, hcopy] at hset
      simp at hset
  | dispatcher => exact absurd rfl (ha _)

/-- The context in use is complete, so all the dispatcher's calls are about one client. -/
theorem ServerInv.pid_eq (h : ServerInv s) (huse : s.server.dispatcher = .use slot)
    (hpid : s.work.clientPid (s.server.workspace.clientBank slot) = some pid) :
    pid = (s.server.workspace.clientBank slot).id := by
  have hcopy := h.flag.2
  rw [huse] at hcopy
  obtain ⟨req, hcomplete⟩ := h.bank.copy_built slot hcopy
  rw [hcomplete.id]
  cases hwork : s.work with
  | callDequeue | dequeue =>
      rw [hwork, WorkPc.clientPid, hcomplete.pRequestQueue] at hpid
      exact (Option.some.inj hpid).symm
  | transpose =>
      rw [hwork, WorkPc.clientPid, hcomplete.id] at hpid
      exact (Option.some.inj hpid).symm
  | callWake | wake =>
      rw [hwork, WorkPc.clientPid, hcomplete.pTransposeReadyFutex] at hpid
      exact (Option.some.inj hpid).symm
  | leave =>
      rw [hwork] at hpid
      cases hpid

/-! ## The work on a client -/

def State.workOn (s : State) (pid : UInt32) : WorkPc :=
  match s.server.dispatcher with
  | .use slot => if (s.server.workspace.clientBank slot).id = pid then s.work else .callDequeue
  | _ => .callDequeue

theorem workOn_of_use (huse : s.server.dispatcher = .use slot) :
    s.workOn (s.server.workspace.clientBank slot).id = s.work := by
  simp [State.workOn, huse]

theorem workOn_of_serve (huse : s.server.dispatcher = .use slot) {c : Client} {work : WorkPc} :
    ({ s.setClient pid c with work := work } : State).workOn
      (s.server.workspace.clientBank slot).id = work := by
  simp [State.workOn, State.setClient, huse]

theorem workOn_of_ne (huse : s.server.dispatcher = .use slot)
    (hne : (s.server.workspace.clientBank slot).id ≠ pid) : s.workOn pid = .callDequeue := by
  simp [State.workOn, huse, hne]

theorem workOn_of_not_use (huse : ∀ slot, s.server.dispatcher ≠ .use slot) :
    s.workOn pid = .callDequeue := by
  unfold State.workOn
  split
  case h_1 slot heq => exact absurd heq (huse slot)
  case h_2 => rfl

theorem workOn_of_work (hwork : s.work = .callDequeue) : s.workOn pid = .callDequeue := by
  unfold State.workOn
  split
  case h_1 => rw [hwork, ite_self]
  case h_2 => rfl

theorem workOn_of_handle {server : ClientBankHandoff.State} {a : ClientBankHandoff.Action}
    (hserver : ServerInv s) (ha : ∀ times, a ≠ .dispatcher times)
    (hstep : ClientBankHandoff.step uninitialized s.server a = some server) :
    ({ s with server := server } : State).workOn pid = s.workOn pid := by
  unfold State.workOn
  rw [(dispatcher_of_handle ha hstep).1]
  cases hpc : s.server.dispatcher with
  | use slot =>
      have hcopy := hserver.flag.2
      rw [hpc] at hcopy
      simp only [hserver.clientBank_of_handle ha hstep (Or.inl hcopy)]
  | loop | loadFlag | loadBits | clearFlag | scan | exited => rfl

section Observe

variable {times : Option (UInt64 × UInt64)}

theorem observe_of_serve (huse : s.server.dispatcher = .use slot)
    (hpid : s.work.clientPid (s.server.workspace.clientBank slot) = some pid) :
    observe pid s (.server (.dispatcher times)) = (s.clients pid).servingShows s.work := by
  simp only [observe, huse, if_pos hpid]

theorem observe_of_ne {p : UInt32} (huse : s.server.dispatcher = .use slot)
    (hpid : s.work.clientPid (s.server.workspace.clientBank slot) = some p) (hne : pid ≠ p) :
    observe pid s (.server (.dispatcher times)) = [] := by
  have hother : s.work.clientPid (s.server.workspace.clientBank slot) ≠ some pid := by
    rw [hpid]
    exact fun hsome => hne (Option.some.inj hsome).symm
  simp only [observe, huse, if_neg hother]

theorem observe_of_leave {served : Bool} (huse : s.server.dispatcher = .use slot)
    (hwork : s.work = .leave served) : observe pid s (.server (.dispatcher times)) = [] := by
  simp [observe, huse, hwork, WorkPc.clientPid]

theorem observe_of_not_use (huse : ∀ slot, s.server.dispatcher ≠ .use slot) :
    observe pid s (.server (.dispatcher times)) = [] := by
  cases hpc : s.server.dispatcher with
  | use slot => exact absurd hpc (huse slot)
  | loop | loadFlag | loadBits | clearFlag | scan | exited => simp only [observe, hpc]

end Observe

/-! ## One client -/

def Action.isClient (pid : UInt32) : Action → Bool
  | .client p => p == pid
  | _ => false

/-- What one client sees of a step of the system: `own` says that it is a step of its `main`. -/
inductive LocalMove (c : Client) (stage : Stage) (work : WorkPc) :
    (own : Bool) → Client → Stage → WorkPc → List Event → Prop where
  | main {c' : Client} {after : Stage} {events : List Event}
      (hmove : MainMove c stage c' after events) : LocalMove c stage work true c' after work events
  | interrupt {futex : FutexSignaller.State Party}
      (hstep : FutexSignaller.step c.futex (.interrupt .client) = some futex) :
      LocalMove c stage work false { c with futex := futex } stage work []
  | serve {c' : Client} {after : Stage} {work' : WorkPc} {events : List Event}
      (hmove : ServeMove c stage work c' work' after events) :
      LocalMove c stage work false c' after work' events
  | leave {served : Bool} (hwork : work = .leave served) :
      LocalMove c stage work false c stage .callDequeue []
  | other : LocalMove c stage work false c stage work []

theorem LocalMove.leads {stage after : Stage} {c c' : Client} {work work' : WorkPc} {own : Bool}
    {events : List Event} (h : LocalMove c stage work own c' after work' events) :
    stage.Leads events after := by
  cases h with
  | main hmove => exact hmove.leads
  | serve hmove => exact hmove.leads
  | interrupt | leave | other => exact Stage.Leads.refl stage

def LocalStep (pid : UInt32) (s : State) (stage : Stage) (a : Action) (t : State) : Prop :=
  ∃ after, LocalMove (s.clients pid) stage (s.workOn pid) (a.isClient pid) (t.clients pid) after
    (t.workOn pid) (observe pid s a) ∧ (t.clients pid).At after (t.workOn pid)

theorem LocalStep.of_eq {stage : Stage} {a : Action}
    (hat : (s.clients pid).At stage (s.workOn pid)) (hclient : t.clients pid = s.clients pid)
    (hwork : t.workOn pid = s.workOn pid) (ha : a.isClient pid = false)
    (hshows : observe pid s a = []) : LocalStep pid s stage a t := by
  unfold LocalStep
  rw [hclient, hwork, ha, hshows]
  exact ⟨stage, .other, hat⟩

theorem localStep_of_step {stage : Stage} {a : Action} (hserver : ServerInv s)
    (hat : (s.clients pid).At stage (s.workOn pid)) (hstep : step uninitialized s a = some t) :
    LocalStep pid s stage a t := by
  cases move_of_step hstep with
  | @client p c hclient =>
      by_cases heq : pid = p
      · subst heq
        obtain ⟨after, hmove, hat'⟩ := hat.step hclient
        rw [LocalStep, setClient_clients_self, observe, if_pos rfl, Action.isClient,
          beq_self_eq_true]
        exact ⟨after, .main hmove, hat'⟩
      · apply LocalStep.of_eq hat (setClient_clients_of_ne s heq c)
        · rfl
        · rw [Action.isClient, beq_eq_false_iff_ne]
          exact Ne.symm heq
        · rw [observe, if_neg (Ne.symm heq)]
  | @interrupt p futex hinterrupt =>
      by_cases heq : pid = p
      · subst heq
        rw [LocalStep, setClient_clients_self]
        exact ⟨stage, .interrupt hinterrupt, hat.interrupt hinterrupt⟩
      · exact LocalStep.of_eq hat (setClient_clients_of_ne s heq _) rfl rfl rfl
  | @serve times slot p c work huse hpid hserve =>
      have hp := hserver.pid_eq huse hpid
      by_cases heq : pid = p
      · subst heq
        have hbefore : s.workOn pid = s.work := hp ▸ workOn_of_use huse
        have hafter : ({ s.setClient pid c with work := work } : State).workOn pid = work := by
          rw [hp]
          exact workOn_of_serve huse
        rw [hbefore] at hat
        obtain ⟨after, hmove, hat'⟩ := hat.serve hserve
        rw [LocalStep, hbefore, hafter, observe_of_serve huse hpid, setClient_clients_self]
        exact ⟨after, .serve hmove, hat'⟩
      · have hne : (s.server.workspace.clientBank slot).id ≠ pid := hp ▸ Ne.symm heq
        apply LocalStep.of_eq hat
        · exact setClient_clients_of_ne s heq c
        · rw [workOn_of_ne huse hne]
          exact workOn_of_ne huse hne
        · rfl
        · exact observe_of_ne huse hpid heq
  | @leave times slot served server huse hleave hdispatcher =>
      have hafter : ({ s with server := server, work := .callDequeue } : State).workOn pid =
          .callDequeue := workOn_of_work rfl
      by_cases heq : (s.server.workspace.clientBank slot).id = pid
      · subst heq
        rw [workOn_of_use huse, hleave] at hat
        rw [LocalStep, observe_of_leave huse hleave, hafter, workOn_of_use huse]
        exact ⟨stage, .leave hleave, { hat with work := hat.work }⟩
      · apply LocalStep.of_eq hat
        · rfl
        · rw [hafter, workOn_of_ne huse heq]
        · rfl
        · exact observe_of_leave huse hleave
  | @scan times server huse hdispatcher =>
      apply LocalStep.of_eq hat
      · rfl
      · rw [workOn_of_not_use huse]
        exact workOn_of_work (hserver.work huse)
      · rfl
      · exact observe_of_not_use huse
  | @handle a server ha hhandle =>
      apply LocalStep.of_eq hat
      · rfl
      · exact workOn_of_handle hserver ha hhandle
      · rfl
      · cases a with
        | dispatcher times => exact absurd rfl (ha times)
        | add | remove | handler | stop => rfl

/-- The client is at some stage, and its history is that of its rounds up to there. -/
def ClientInv (s : State) (pid : UInt32) (history : List Event) : Prop :=
  ∃ stage, (s.clients pid).At stage (s.workOn pid) ∧ Rounds round history stage.owed

theorem clientInv_initial {serverPid : UInt32} {k requestRepetitions : UInt32 → UInt32} :
    ClientInv (initial serverPid k requestRepetitions) pid [] :=
  ⟨.resting, Client.at_start _ _, Rounds.nil⟩

theorem clientInv_step {a : Action} {history : List Event} (hserver : ServerInv s)
    (h : ClientInv s pid history) (hstep : step uninitialized s a = some t) :
    ClientInv t pid (history ++ observe pid s a) := by
  obtain ⟨stage, hat, hrounds⟩ := h
  obtain ⟨after, hmove, hat'⟩ := localStep_of_step hserver hat hstep
  exact ⟨after, hat', hmove.leads history hrounds⟩

/-- In any run from the start, each client's history is made of rounds. -/
theorem clientInv_of_exec (hinit : (machine uninitialized).init s) {acts : List Action}
    (hrun : (machine uninitialized).exec s acts = some t) (pid : UInt32) :
    ClientInv t pid ((machine uninitialized).trace (observe pid) s acts) := by
  let Kept (s : State) (history : List Event) : Prop :=
    (machine uninitialized).Reachable s ∧ ClientInv s pid history
  have hstart : Kept s [] := by
    refine ⟨Machine.Reachable.of_init hinit, ?_⟩
    obtain ⟨serverPid, k, requestRepetitions, rfl⟩ := hinit
    exact clientInv_initial
  have hkeep : ∀ s history a t, Kept s history → step uninitialized s a = some t →
      Kept t (history ++ observe pid s a) := by
    intro s history a t h hstep
    exact ⟨h.1.step hstep, clientInv_step (serverInv_of_reachable h.1) h.2 hstep⟩
  exact (Machine.exec_trace_invariant hkeep hstart hrun).2

end MatrixTransposer.RequestCycle
