import MatrixTransposer.Proof.DeploymentService
import MatrixTransposer.Proof.DeploymentSession

/-!
# Every request is answered

A client that waits is subscribed, so two laps of the dispatcher wake it. A lap is longer here by
one step for each request, since the threads are started and joined, and the dispatcher has to wait
for them; but they finish.
-/

namespace MatrixTransposer.Deployment

open Lib
open RequestCycle (Subscribed Underway Returning lap lapLeft)

variable {cfg : Config} {s t : State} {pid repetition bufferIndex : UInt32} {slot : Fin maxClients}

def Action.isDispatcher : Action → Bool
  | .dispatcher _ => true
  | _ => false

def Action.isMain (pid : UInt32) : Action → Bool
  | .main p => p == pid
  | _ => false

/-- `Wait`, called for this buffer index in this repetition, returns in the run. -/
def WaitReturns (cfg : Config) (pid repetition bufferIndex : UInt32) (s : State)
    (acts : List Action) : Prop :=
  ∃ before t, before <+: acts ∧ (machine cfg).exec s before = some t ∧
    (t.cycle.clients pid).main = .loop repetition (bufferIndex + 1)

/-! ## The dispatcher can go on -/

/-- The threads run as the pool by itself does. -/
theorem exec_workers {schedule : List UInt32}
    {p q : Pool UInt32 (Assign Nat) Memory} (hthreads : s.threads = some p.todo)
    (hmemory : s.memory = p.store)
    (hrun : (Pool.machine Assign.run).exec p schedule = some q) :
    (machine cfg).exec s (schedule.map Action.worker) =
      some { s with memory := q.store, threads := some q.todo } := by
  induction schedule generalizing s p with
  | nil =>
      rw [← Option.some.inj hrun, ← hthreads, ← hmemory]
      rfl
  | cons worker schedule ih =>
      obtain ⟨r, hstep, hrest⟩ := Machine.exec_cons_eq_some.mp hrun
      have hworker : (machine cfg).step s (.worker worker) =
          some { s with memory := r.store, threads := some r.todo } := by
        change workerStep s worker = _
        rw [workerStep, hthreads, hmemory, Option.bind_some]
        exact congrArg (Option.map _) hstep
      exact Machine.exec_cons_eq_some.mpr ⟨_, hworker, ih rfl rfl hrest⟩

theorem cycleStep_dispatcher_isSome (h : (machine cfg).Reachable s)
    (hexited : s.cycle.server.dispatcher ≠ .exited) :
    ∃ times, (cycleStep cfg s (.server (.dispatcher times))).isSome = true := by
  obtain ⟨times, hstep⟩ :=
    RequestCycle.dispatcherStep_isSome (requestCycle_reachable h) hexited
  refine ⟨times, ?_⟩
  rw [cycleStep, Option.isSome_map]
  exact hstep

/-- A dimension that is a multiple of the tile is at least as large. -/
theorem transposeTileSize_le {m : UInt32} (hm : m < 32) (htile : 6 ≤ m) :
    transposeTileSize ≤ (1 : UInt32) <<< m := by
  rw [UInt32.le_iff_toNat_le, toNat_one_shiftLeft hm]
  exact Nat.le_of_dvd (Nat.two_pow_pos _) (transposeTileSize_dvd_iff.mpr htile)

theorem startThreads_isSome (hsuited : cfg.Suited) (h : (machine cfg).Reachable s)
    (hjob : s.job = some (slot, bufferIndex)) :
    (startThreads cfg s (s.cycle.server.workspace.clientBank slot) bufferIndex).isSome = true := by
  have hservice := inService_of_job h hjob
  obtain ⟨original, horiginal, -⟩ := exists_buffer hservice.lt hservice.complete.matrixBuffers
  obtain ⟨transposed, htransposed, -⟩ :=
    exists_buffer hservice.lt hservice.complete.matrixBuffersTr
  obtain ⟨hm, hn, -⟩ := hservice.constructs.bounds hservice.lt
  obtain ⟨hrows, hcols⟩ := hsuited.dimensions (s.clientAt slot)
  have hfits : transposeTileSize ≤
        (s.cycle.server.workspace.clientBank slot).matrixSize.numRows ∧
      transposeTileSize ≤
        (s.cycle.server.workspace.clientBank slot).matrixSize.numColumns := by
    rw [hservice.complete.matrixSize]
    exact ⟨transposeTileSize_le hm hrows, transposeTileSize_le hn hcols⟩
  simp only [startThreads, horiginal, htransposed, hfits, and_self, if_true, Option.isSome_some]

/-- Unless it has exited, the dispatcher goes on when the threads, if there are any, have finished
by themselves. -/
theorem dispatcher_goes_on (hsuited : cfg.Suited) (h : (machine cfg).Reachable s)
    (hexited : s.cycle.server.dispatcher ≠ .exited) :
    ∃ (workers : List UInt32) (u : State) (times : Option (UInt64 × UInt64)),
      (machine cfg).exec s (workers.map Action.worker) = some u ∧
        (step cfg u (.dispatcher times)).isSome = true := by
  cases hjob : s.job with
  | none =>
      obtain ⟨times, hstep⟩ := cycleStep_dispatcher_isSome h hexited
      refine ⟨[], s, times, rfl, ?_⟩
      simp only [step, dispatcherStep, hjob]
      exact hstep
  | some job =>
      obtain ⟨slot, bufferIndex⟩ := job
      cases hthreads : s.threads with
      | none =>
          refine ⟨[], s, none, rfl, ?_⟩
          simp only [step, dispatcherStep, hjob, hthreads]
          exact startThreads_isSome hsuited h hjob
      | some todo =>
          have hfinite : Finite UInt32 :=
            Finite.of_injective UInt32.toFin fun a b h => UInt32.toFin_inj.mp h
          obtain ⟨schedule, q, hrun, hjoined⟩ : ∃ schedule q, (Pool.machine Assign.run).exec
              { store := s.memory, todo := todo } schedule = some q ∧ q.Joined :=
            Pool.exists_exec_joined _
          have hworkers : (machine cfg).exec s (schedule.map Action.worker) =
              some { s with memory := q.store, threads := some q.todo } :=
            exec_workers hthreads rfl hrun
          obtain ⟨times, hstep⟩ := cycleStep_dispatcher_isSome (h.exec hworkers) hexited
          refine ⟨schedule, _, times, hworkers, ?_⟩
          have hall : joined cfg q.todo = true := by
            rw [joined, List.all_eq_true]
            intro worker _
            rw [hjoined worker, List.isEmpty_nil]
          have hsame : ({ s with memory := q.store, threads := some q.todo } : State).job =
              some (slot, bufferIndex) := hjob
          simp only [step, dispatcherStep, hsame, hall, if_true, Option.isSome_map]
          exact hstep

/-! ## The client stays subscribed -/

theorem cycle_of_step {a : Action} (hstep : step cfg s a = some t) :
    t.cycle = s.cycle ∨
      ∃ ca, TransposeServer.step cfg.uninitialized s.cycle ca = some t.cycle ∧
        ∀ context message, ca = .server (.message context message) →
          message ∈ s.toServer context.socket := by
  cases move_of_step hstep with
  | giveUp | construct | subscribe | sleep | begin | finish | unsubscribe | verify | receive | send
  | start | worker => exact Or.inl rfl
  | message _ hnext hcycle =>
      refine Or.inr ⟨_, hcycle, ?_⟩
      intro context message heq
      cases heq
      exact hnext ▸ List.mem_cons_self
  | client _ hcycle | interrupt hcycle | handler _ hcycle | added _ hcycle | join _ _ _ hcycle
  | dispatcher _ hcycle | stop hcycle =>
      exact Or.inr ⟨_, hcycle, fun _ _ heq => by cases heq⟩

theorem subscribed_of_step {a : Action} (h : (machine cfg).Reachable s)
    (hphase : s.phase pid = .requests) (hsubscribed : Subscribed pid slot s.cycle)
    (hstep : step cfg s a = some t) : Subscribed pid slot t.cycle := by
  have hstays : (s.phase pid).leaving = false := congrArg Phase.leaving hphase
  obtain ⟨hspares, hqueued⟩ := (session_of_reachable h pid).spared hstays
  rcases cycle_of_step hstep with heq | ⟨ca, hcycle, hmessage⟩
  · rwa [heq]
  · apply TransposeServer.subscribed_step (serverInv_of_reachable h)
      (TransposeServer.slotInv_of_reachable (cycle_reachable h)) ?_ hsubscribed hcycle
    exact hspares

/-- A client that waits is in its loops, and has been subscribed. -/
theorem subscribed_of_waiting (h : (machine cfg).Reachable s)
    (hwait : (s.cycle.clients pid).Waiting repetition bufferIndex) :
    s.phase pid = .requests ∧ ∃ slot, Subscribed pid slot s.cycle := by
  have hphase : s.phase pid = .requests := by
    have hfacts := clientFacts_of_reachable h pid
    rcases hwait with hpc | hpc
    · exact hfacts.requests_of_main (by simp [hpc]) (by simp [hpc])
    · exact hfacts.requests_of_main (by simp [hpc]) (by simp [hpc])
  have hsession := session_of_reachable h pid
  have hreceived := hsession.received (Or.inl hphase)
  refine ⟨hphase, hsession.granted ?_ (congrArg Phase.leaving hphase)⟩
  rw [State.responses, if_pos hreceived]
  omega

/-! ## From the call to the wake-up -/

/-- A step that is not the dispatcher's is one of the request cycle, or none. -/
theorem requestCycle_of_step {a : Action} (hstep : step cfg s a = some t) :
    t.cycle = s.cycle ∨ ∃ b, RequestCycle.step cfg.uninitialized s.cycle b = some t.cycle := by
  rcases cycle_of_step hstep with heq | ⟨ca, hcycle, -⟩
  · exact Or.inl heq
  · rcases TransposeServer.step_cases hcycle with ⟨heq, -⟩ | ⟨b, hb, -⟩
    · exact Or.inl heq
    · exact Or.inr ⟨b, hb⟩

theorem threads_of_step {a : Action} (ha : a.isDispatcher = false)
    (hstep : step cfg s a = some t) : t.threads.isNone = s.threads.isNone := by
  cases move_of_step hstep with
  | start | join | dispatcher => cases ha
  | worker hthreads => rw [hthreads, Option.isNone_some, Option.isNone_some]
  | giveUp | construct | subscribe | sleep | begin | client | finish | unsubscribe | verify
  | interrupt | receive | message | handler | added | send | stop => rfl

/-- Either the threads are started or the lap goes on. -/
theorem dispatcher_of_step {a : Action} (ha : a.isDispatcher = true)
    (hstep : step cfg s a = some t) :
    t.cycle = s.cycle ∧ s.threads.isNone = true ∧ t.threads.isNone = false ∨
      ∃ times, RequestCycle.step cfg.uninitialized s.cycle (.server (.dispatcher times)) =
        some t.cycle := by
  cases move_of_step hstep with
  | start _ hidle =>
      rw [hidle]
      exact Or.inl ⟨rfl, rfl, rfl⟩
  | join _ _ _ hcycle | dispatcher _ hcycle => exact Or.inr ⟨_, hcycle⟩
  | giveUp | construct | subscribe | sleep | begin | client | finish | unsubscribe | verify
  | interrupt | receive | message | handler | added | send | worker | stop => cases ha

/-- The client waits and has still to be woken, which takes at most `n` steps of the dispatcher:
for each step of the lap it may have to start the threads as well. -/
structure Pending (cfg : Config) (pid repetition bufferIndex : UInt32) (s : State) (n : Nat) :
    Prop where
  reachable : (machine cfg).Reachable s
  underway : ∃ slot m, Subscribed pid slot s.cycle ∧
    Underway cfg.uninitialized pid slot repetition bufferIndex s.cycle m ∧
      2 * m + s.threads.isNone.toNat ≤ n

/-- The client has been woken or has returned. -/
def Answered (pid repetition bufferIndex : UInt32) (s : State) : Prop :=
  (s.cycle.clients pid).main = .loop repetition (bufferIndex + 1) ∨
    (s.cycle.clients pid).Waiting repetition bufferIndex ∧ RequestCycle.Woken pid s.cycle

theorem pending_step {a : Action} {n : Nat} (h : Pending cfg pid repetition bufferIndex s n)
    (hstep : step cfg s a = some t) :
    Answered pid repetition bufferIndex t ∨
      ∃ m, Pending cfg pid repetition bufferIndex t m ∧
        m + (if a.isDispatcher then 1 else 0) ≤ n := by
  obtain ⟨hreach, slot, m, hsubscribed, hunderway, hbudget⟩ := h
  obtain ⟨hphase, -⟩ := subscribed_of_waiting hreach hunderway.waiting
  have hreach' := hreach.step hstep
  have hsubscribed' := subscribed_of_step hreach hphase hsubscribed hstep
  cases ha : a.isDispatcher with
  | false =>
      have hthreads := threads_of_step ha hstep
      rcases requestCycle_of_step hstep with heq | ⟨b, hcycle⟩
      · refine Or.inr ⟨n, ⟨hreach', slot, m, hsubscribed', heq ▸ hunderway, ?_⟩, by simp⟩
        rwa [hthreads]
      · rcases RequestCycle.underway_step hsubscribed hunderway hcycle with hdone |
          ⟨m', hunderway', hle⟩
        · exact Or.inl hdone
        · refine Or.inr ⟨n, ⟨hreach', slot, m', hsubscribed', hunderway', ?_⟩, by simp⟩
          rw [hthreads]
          omega
  | true =>
      simp only [if_true]
      rcases dispatcher_of_step ha hstep with ⟨heq, hidle, hstarted⟩ | ⟨times, hcycle⟩
      · rw [hidle, Bool.toNat_true] at hbudget
        refine Or.inr ⟨2 * m, ⟨hreach', slot, m, hsubscribed', heq ▸ hunderway, ?_⟩, hbudget⟩
        rw [hstarted, Bool.toNat_false, Nat.add_zero]
      · rcases RequestCycle.underway_step hsubscribed hunderway hcycle with hdone |
          ⟨m', hunderway', hle⟩
        · exact Or.inl hdone
        · have hone := Bool.toNat_le t.threads.isNone
          have hdispatcher : (RequestCycle.Action.server (.dispatcher times)).isDispatcher =
              true := rfl
          rw [hdispatcher, if_pos rfl] at hle
          refine Or.inr ⟨_, ⟨hreach', slot, m', hsubscribed', hunderway', le_rfl⟩, ?_⟩
          omega

theorem answered_of_laps {acts : List Action} (h : (machine cfg).Reachable s)
    (hwait : (s.cycle.clients pid).Waiting repetition bufferIndex)
    (hrun : (machine cfg).exec s acts = some t)
    (hlaps : 4 * lap ≤ acts.countP Action.isDispatcher) :
    ∃ before after u, acts = before ++ after ∧ (machine cfg).exec s before = some u ∧
      (machine cfg).exec u after = some t ∧ Answered pid repetition bufferIndex u := by
  by_cases hwoken : RequestCycle.Woken pid s.cycle
  · exact ⟨[], acts, s, rfl, rfl, hrun, Or.inr ⟨hwait, hwoken⟩⟩
  obtain ⟨-, slot, hsubscribed⟩ := subscribed_of_waiting h hwait
  have hlap := RequestCycle.lapLeft_lt_lap s.cycle
  have hunderway : Underway cfg.uninitialized pid slot repetition bufferIndex s.cycle
      (lapLeft s.cycle + lap) :=
    ⟨requestCycle_reachable h, hwait, hwoken, Or.inr le_rfl⟩
  have hpending : Pending cfg pid repetition bufferIndex s
      (2 * (lapLeft s.cycle + lap) + s.threads.isNone.toNat) :=
    ⟨h, slot, _, hsubscribed, hunderway, le_rfl⟩
  have hone := Bool.toNat_le s.threads.isNone
  rcases Machine.exec_reaches (C := fun _ => True) (I := Pending cfg pid repetition bufferIndex)
    (p := Action.isDispatcher) (fun _ _ _ _ _ hn hstep => pending_step hn hstep) hpending
    (fun _ _ _ _ => trivial) hrun with hreached | ⟨m, -, hcount⟩
  · exact hreached
  · omega

/-! ## From the wake-up to the return -/

/-- The client has been woken and returns after at most `n` steps of its `main`. -/
structure Leaving (cfg : Config) (pid repetition bufferIndex : UInt32) (s : State) (n : Nat) :
    Prop where
  reachable : (machine cfg).Reachable s
  returning : Returning cfg.uninitialized pid repetition bufferIndex s.cycle n

theorem client_of_main {a : Action} (ha : a.isMain pid = true) (hphase : s.phase pid = .requests)
    (hdone : (s.cycle.clients pid).main ≠ .done) (hstep : step cfg s a = some t) :
    RequestCycle.step cfg.uninitialized s.cycle (.client pid) = some t.cycle := by
  cases a with
  | main p =>
      obtain rfl : p = pid := by simpa [Action.isMain] using ha
      cases move_of_step hstep with
      | client _ hcycle => exact hcycle
      | finish _ hmain => exact absurd hmain hdone
      | subscribe hother | sleep hother | begin hother | unsubscribe hother | verify hother =>
          cases hphase.symm.trans hother
  | construct | interrupt | receive | message | handler | send | dispatcher | worker | stop =>
      cases ha

theorem leaving_step {a : Action} {n : Nat} (h : Leaving cfg pid repetition bufferIndex s n)
    (hstep : step cfg s a = some t) :
    (t.cycle.clients pid).main = .loop repetition (bufferIndex + 1) ∨
      ∃ m, Leaving cfg pid repetition bufferIndex t m ∧
        m + (if a.isMain pid then 1 else 0) ≤ n := by
  obtain ⟨hreach, hreturning⟩ := h
  have hreach' := hreach.step hstep
  cases ha : a.isMain pid with
  | false =>
      rcases requestCycle_of_step hstep with heq | ⟨b, hcycle⟩
      · exact Or.inr ⟨n, ⟨hreach', heq ▸ hreturning⟩, by simp⟩
      · rcases RequestCycle.returning_step hreturning hcycle with hloop | ⟨m, hm, hle⟩
        · exact Or.inl hloop
        · exact Or.inr ⟨m, ⟨hreach', hm⟩, by simp only [Bool.false_eq_true, if_false]; omega⟩
  | true =>
      obtain ⟨hphase, -⟩ := subscribed_of_waiting hreach hreturning.waiting
      have hdone : (s.cycle.clients pid).main ≠ .done := by
        rcases hreturning.waiting with hpc | hpc <;> simp [hpc]
      have hcycle := client_of_main ha hphase hdone hstep
      rcases RequestCycle.returning_step hreturning hcycle with hloop | ⟨m, hm, hle⟩
      · exact Or.inl hloop
      · have hclient : (RequestCycle.Action.client pid).isClient pid = true := by
          simp [RequestCycle.Action.isClient]
        rw [hclient] at hle
        exact Or.inr ⟨m, ⟨hreach', hm⟩, hle⟩

theorem WaitReturns.append_left {before after : List Action}
    (hbefore : (machine cfg).exec s before = some t)
    (h : WaitReturns cfg pid repetition bufferIndex t after) :
    WaitReturns cfg pid repetition bufferIndex s (before ++ after) := by
  obtain ⟨earlier, u, ⟨later, rfl⟩, hearlier, hloop⟩ := h
  refine ⟨before ++ earlier, u, ?_, Machine.exec_append_eq_some.mpr ⟨t, hbefore, hearlier⟩, hloop⟩
  exact ⟨later, by rw [List.append_assoc]⟩

theorem mainStep_isSome (h : (machine cfg).Reachable s)
    (hwait : (s.cycle.clients pid).Waiting repetition bufferIndex)
    (hasleep : (s.cycle.clients pid).futex.pc .client ≠ .asleep) :
    (step cfg s (.main pid)).isSome = true := by
  obtain ⟨hphase, -⟩ := subscribed_of_waiting h hwait
  obtain ⟨stage, hat⟩ := exists_stage h pid
  have hdone : (s.cycle.clients pid).main ≠ .done := by
    rcases hwait with hpc | hpc <;> simp [hpc]
  have hclient := hat.step_isSome hdone hasleep
  simp only [step, mainStep, hphase, hdone, if_false, cycleStep, TransposeServer.step,
    RequestCycle.step, Option.isSome_map]
  exact hclient

theorem waitReturns_of_woken {acts : List Action} (h : (machine cfg).Reachable s)
    (hwait : (s.cycle.clients pid).Waiting repetition bufferIndex)
    (hwoken : RequestCycle.Woken pid s.cycle) (hrun : (machine cfg).exec s acts = some t) :
    WaitReturns cfg pid repetition bufferIndex s acts ∨
      (step cfg t (.main pid)).isSome = true ∧ acts.countP (Action.isMain pid) < 2 := by
  have hbounds : ∀ c : RequestCycle.Client, 1 ≤ c.returnLeft ∧ c.returnLeft ≤ 2 := by
    intro c
    unfold RequestCycle.Client.returnLeft
    split <;> omega
  have hleaving : Leaving cfg pid repetition bufferIndex s 2 :=
    ⟨h, requestCycle_reachable h, hwait, hwoken, (hbounds _).2⟩
  rcases Machine.exec_reaches (C := fun _ => True) (I := Leaving cfg pid repetition bufferIndex)
    (p := Action.isMain pid) (fun _ _ _ _ _ hn hstep => leaving_step hn hstep) hleaving
    (fun _ _ _ _ => trivial) hrun with
    ⟨before, after, u, rfl, hbefore, -, hloop⟩ | ⟨m, ⟨hreach, hreturning⟩, hcount⟩
  · exact Or.inl ⟨before, u, List.prefix_append _ _, hbefore, hloop⟩
  · right
    obtain ⟨-, hwait', ⟨hone, hwork⟩, hm⟩ := hreturning
    obtain ⟨stage, hat⟩ := exists_stage hreach pid
    have hpos := (hbounds (t.cycle.clients pid)).1
    exact ⟨mainStep_isSome hreach hwait' (hat.not_asleep hone hwork), by omega⟩

end MatrixTransposer.Deployment
