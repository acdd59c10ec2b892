import MatrixTransposer.Proof.DeploymentMemory

/-!
# The request in service

The dispatcher transposes a buffer of a client that is waiting for just that buffer. So the threads
have the result to themselves, and nobody writes the matrix that they read.
-/

namespace MatrixTransposer.Deployment

open Lib
open RequestCycle (MainPc Stage)
open TransposeClient (BufferVector)

variable {cfg : Config} {s t : State} {pid b : UInt32} {slot : Fin maxClients}
  {vector : BufferVector} {todo : UInt32 → List (Assign Nat)}

/-- Every client's matrices are at least as large as a tile, and there is a thread to copy them. -/
structure Config.Suited (cfg : Config) : Prop where
  threads : 0 < cfg.numWorkerThreads
  dimensions : ∀ pid, 6 ≤ (cfg.arguments pid).m ∧ 6 ≤ (cfg.arguments pid).n

theorem suited_small : Config.small.Suited where
  threads := by decide
  dimensions _ := (by decide : 6 ≤ smallArguments.m ∧ 6 ≤ smallArguments.n)

/-- The identifier of the client in a slot. -/
abbrev State.clientAt (s : State) (slot : Fin maxClients) : UInt32 :=
  (s.cycle.server.workspace.clientBank slot).id

/-! ## The client that is served -/

theorem job_eq_some : s.job = some (slot, b) ↔
    s.cycle.server.dispatcher = .use slot ∧ s.cycle.work = .transpose b := by
  cases hpc : s.cycle.server.dispatcher with
  | use slot' =>
      cases hwork : s.cycle.work with
      | transpose b' => simp [State.job, hpc, hwork]
      | callDequeue | dequeue | callWake | wake | leave => simp [State.job, hpc, hwork]
  | loop | loadFlag | loadBits | clearFlag | scan | exited => simp [State.job, hpc]

structure InService (cfg : Config) (s : State) (slot : Fin maxClients) (b : UInt32) : Prop where
  complete : (s.cycle.server.workspace.clientBank slot).Complete
    (cfg.subscription (s.clientAt slot))
  workOn : s.cycle.workOn (s.clientAt slot) = .transpose b
  main : ∃ repetition, (s.cycle.clients (s.clientAt slot)).main = .callWait repetition b ∨
    (s.cycle.clients (s.clientAt slot)).main = .wait repetition b
  phase : s.phase (s.clientAt slot) = .requests
  constructs : cfg.Constructs (s.clientAt slot)
  lt : b < (cfg.arguments (s.clientAt slot)).k

theorem complete_of_use (h : (machine cfg).Reachable s)
    (huse : s.cycle.server.dispatcher = .use slot) :
    (s.cycle.server.workspace.clientBank slot).Complete (cfg.subscription (s.clientAt slot)) := by
  have hserver := serverInv_of_reachable h
  have hcopy := hserver.flag.2
  rw [huse] at hcopy
  obtain ⟨req, hcomplete⟩ := hserver.bank.copy_built slot hcopy
  exact (ownContexts_of_reachable h).bank slot hcomplete.subscribed

theorem inService_of_job (h : (machine cfg).Reachable s) (hjob : s.job = some (slot, b)) :
    InService cfg s slot b := by
  obtain ⟨huse, hwork⟩ := job_eq_some.mp hjob
  have hon : s.cycle.workOn (s.clientAt slot) = .transpose b := by
    rw [← hwork]
    exact RequestCycle.workOn_of_use huse
  obtain ⟨stage, hat⟩ := exists_stage h (s.clientAt slot)
  rw [hon] at hat
  obtain ⟨rfl, -⟩ := hat.work
  have hfacts := clientFacts_of_reachable h (s.clientAt slot)
  have hmain : ∃ repetition, (s.cycle.clients (s.clientAt slot)).main = .callWait repetition b ∨
      (s.cycle.clients (s.clientAt slot)).main = .wait repetition b := by
    have hstage := hat.main
    cases hpc : (s.cycle.clients (s.clientAt slot)).main with
    | loop | enqueue | done =>
        rw [hpc] at hstage
        cases hstage.1
    | callWait repetition b' =>
        rw [hpc] at hstage
        cases hstage.1
        exact ⟨repetition, Or.inl rfl⟩
    | wait repetition b' =>
        rw [hpc] at hstage
        cases hstage.1
        exact ⟨repetition, Or.inr rfl⟩
  have hphase : s.phase (s.clientAt slot) = .requests := by
    obtain ⟨repetition, hpc | hpc⟩ := hmain
    · exact hfacts.requests_of_main (by simp [hpc]) (by simp [hpc])
    · exact hfacts.requests_of_main (by simp [hpc]) (by simp [hpc])
  obtain ⟨buffers, hbuffers⟩ := hfacts.built_of_requests hphase
  have hlt : b < (cfg.arguments (s.clientAt slot)).k := by
    have hwithin := hfacts.main
    rw [hfacts.k] at hwithin
    obtain ⟨repetition, hpc | hpc⟩ := hmain
    · rw [hpc] at hwithin
      exact hwithin.2
    · rw [hpc] at hwithin
      exact hwithin.2
  exact ⟨complete_of_use h huse, hon, hmain, hphase, constructs_of_buffers h hbuffers, hlt⟩

/-! ## What the threads copy -/

/-- The assignments that transpose a matrix of the client. -/
def Config.assigns (cfg : Config) (pid b : UInt32) : Set (Assign Nat) :=
  elementAssigns (cfg.address pid .matrixBuffers b) (cfg.address pid .matrixBuffersTr b)
    (1 <<< (cfg.arguments pid).m) (1 <<< (cfg.arguments pid).n)

section Assigns

variable (hc : cfg.Constructs pid) (hb : b < (cfg.arguments pid).k)
include hc hb

theorem elements_eq : ((1 : UInt32) <<< (cfg.arguments pid).m).toNat *
    ((1 : UInt32) <<< (cfg.arguments pid).n).toNat = cfg.elements pid := by
  obtain ⟨hm, hn, -⟩ := hc.bounds hb
  rw [toNat_one_shiftLeft hm, toNat_one_shiftLeft hn]

theorem size_le : ((1 : UInt32) <<< (cfg.arguments pid).m).toNat *
    ((1 : UInt32) <<< (cfg.arguments pid).n).toNat ≤ 2 ^ 32 := by
  rw [elements_eq hc hb]
  exact (hc.elements_lt hb).le

theorem source_mem_region {c : Assign Nat} (h : c ∈ cfg.assigns pid b) :
    c.source ∈ cfg.region pid .matrixBuffers b := by
  have hsource := source_elementAssigns (size_le hc hb) h
  rwa [elements_eq hc hb] at hsource

theorem target_mem_region {c : Assign Nat} (h : c ∈ cfg.assigns pid b) :
    c.target ∈ cfg.region pid .matrixBuffersTr b := by
  have htarget := target_elementAssigns (size_le hc hb) h
  rwa [elements_eq hc hb] at htarget

theorem consistent_assigns : Assign.Consistent (cfg.assigns pid b) := by
  apply consistent_elementAssigns (size_le hc hb)
  rw [elements_eq hc hb]
  obtain ⟨matrix, hmatrix, hsize⟩ := hc.exists_buffer hb .matrixBuffers
  obtain ⟨result, hresult, hsize'⟩ := hc.exists_buffer hb .matrixBuffersTr
  have hne : matrix ≠ result := by
    rintro rfl
    obtain ⟨-, -, -, -, -, hsuffix, -⟩ := SharedMatrixBuffer.construct_eq_some hmatrix
    obtain ⟨-, -, -, -, -, hsuffix', -⟩ := SharedMatrixBuffer.construct_eq_some hresult
    have hsame : BufferVector.matrixBuffers = .matrixBuffersTr :=
      nameSuffix_injective (hsuffix.symm.trans hsuffix')
    cases hsame
  have hapart := cfg.apart matrix result ⟨pid, _, b, hmatrix⟩ ⟨pid, _, b, hresult⟩ hne
  rwa [hsize, hsize', ← address_of_construct hmatrix, ← address_of_construct hresult] at hapart

/-- When every assignment has been made the result is the transposed matrix. -/
theorem resultAt_of_copied {mem : Memory}
    (h : ∀ c ∈ cfg.assigns pid b, mem c.target = mem c.source) :
    cfg.resultAt mem pid b = (cfg.matrixAt mem pid b).transpose := by
  obtain ⟨hm, hn, -⟩ := hc.bounds hb
  apply Matrix.ext
  intro j i
  have hi : i.val < ((1 : UInt32) <<< (cfg.arguments pid).m).toNat := by
    rw [toNat_one_shiftLeft hm]
    exact i.isLt
  have hj : j.val < ((1 : UInt32) <<< (cfg.arguments pid).n).toNat := by
    rw [toNat_one_shiftLeft hn]
    exact j.isLt
  obtain ⟨i', hi', hival⟩ := exists_lt_toNat_eq hi
  obtain ⟨j', hj', hjval⟩ := exists_lt_toNat_eq hj
  have hcopied := h _ ⟨i', j', hi', hj', rfl⟩
  simp only [Copy.assign] at hcopied
  rw [dstIndex_copyOf (size_le hc hb) hi' hj', srcIndex_copyOf (size_le hc hb) hi' hj', hival,
    hjval, toNat_one_shiftLeft hm, toNat_one_shiftLeft hn] at hcopied
  exact hcopied

end Assigns

/-! ## The threads -/

def ThreadInv (cfg : Config) (s : State) : Prop :=
  ∀ todo, s.threads = some todo → ∃ slot b, s.job = some (slot, b) ∧
    (∀ worker, ¬ worker < cfg.numWorkerThreads → todo worker = []) ∧
      Assign.Underway (cfg.assigns (s.clientAt slot) b) { store := s.memory, todo := todo }

/-- The pool that the dispatcher starts has the assignments of the request before it. -/
theorem underway_start (hsuited : cfg.Suited) (hservice : InService cfg s slot b)
    {original transposed : SharedMatrixBuffer}
    (horiginal : (s.cycle.server.workspace.clientBank slot).matrixBuffers[b.toNat]? =
      some original)
    (htransposed : (s.cycle.server.workspace.clientBank slot).matrixBuffersTr[b.toNat]? =
      some transposed) (mem : Memory) :
    Assign.Underway (cfg.assigns (s.clientAt slot) b)
      (tiledPool (cfg.rawPointer original) (cfg.rawPointer transposed)
        (s.cycle.server.workspace.clientBank slot).matrixSize.numRows
        (s.cycle.server.workspace.clientBank slot).matrixSize.numColumns transposeTileSize
        cfg.numWorkerThreads mem) := by
  obtain ⟨hm, hn, -⟩ := hservice.constructs.bounds hservice.lt
  obtain ⟨matrix, hget, hmatrix⟩ := exists_buffer hservice.lt hservice.complete.matrixBuffers
  obtain ⟨result, hgetTr, hresult⟩ := exists_buffer hservice.lt hservice.complete.matrixBuffersTr
  cases hget.symm.trans horiginal
  cases hgetTr.symm.trans htransposed
  have haddress : cfg.address (s.clientAt slot) .matrixBuffers b = cfg.rawPointer original :=
    address_of_construct hmatrix
  have haddressTr : cfg.address (s.clientAt slot) .matrixBuffersTr b = cfg.rawPointer transposed :=
    address_of_construct hresult
  have hrows := transposeTileSize_dvd_iff.mpr (hsuited.dimensions (s.clientAt slot)).1
  have hcols := transposeTileSize_dvd_iff.mpr (hsuited.dimensions (s.clientAt slot)).2
  rw [← toNat_one_shiftLeft hm] at hrows
  rw [← toNat_one_shiftLeft hn] at hcols
  rw [hservice.complete.matrixSize]
  apply Assign.Underway.of_mem_iff
  intro c
  rw [Config.assigns, haddress, haddressTr]
  exact mem_tiledPool_iff (by decide) hrows hcols (size_le hservice.constructs hservice.lt)
    hsuited.threads mem c

/-! ## Who writes what -/

/-- The buffers that a step may write. -/
inductive Writes (cfg : Config) (s : State) : Action → UInt32 → BufferVector → UInt32 → Prop where
  | construct {pid b : UInt32} {throws : Bool} {fails : BufferVector → UInt32 → Bool}
      {dist : UInt32 → Nat → UInt64} {vector : BufferVector} (hphase : s.phase pid = .construct) :
      Writes cfg s (.construct pid throws fails dist) pid vector b
  | worker {t b : UInt32} {slot : Fin maxClients} (hjob : s.job = some (slot, b)) :
      Writes cfg s (.worker t) (s.clientAt slot) .matrixBuffersTr b
  | verify {pid b : UInt32} (hphase : s.phase pid = .verify) :
      Writes cfg s (.main pid) pid .matrixBuffersTrReference b

theorem writes_of_step {a : Action} (h : (machine cfg).Reachable s) (hthreads : ThreadInv cfg s)
    (hstep : step cfg s a = some t) {x : Nat} (hx : t.memory x ≠ s.memory x) :
    ∃ pid vector b, Writes cfg s a pid vector b ∧ cfg.Constructs pid ∧
      b < (cfg.arguments pid).k ∧ x ∈ cfg.region pid vector b := by
  cases move_of_step hstep with
  | @construct pid throws fails dist buffers memory hphase _ hsome =>
      have hconstruct := (constructed_eq_some hsome).1
      by_contra hnone
      apply hx
      apply memory_of_constructed hsome
      intro vector b hb hmem
      exact hnone ⟨pid, vector, b, .construct hphase, ⟨fails, buffers, hconstruct⟩, hb, hmem⟩
  | @verify pid buffers v hphase hbuffers hverify =>
      by_contra hnone
      apply hx
      apply memory_of_verify h hbuffers hverify
      intro b hb hmem
      exact hnone ⟨pid, _, b, .verify hphase, constructs_of_buffers h hbuffers, hb, hmem⟩
  | @worker w todo c rest hsome htodo =>
      obtain ⟨slot, b, hjob, -, hcopying⟩ := hthreads todo hsome
      have hservice := inService_of_job h hjob
      have htask : c ∈ todo w := by
        rw [htodo]
        exact List.mem_cons_self
      have hassign : c ∈ cfg.assigns (s.clientAt slot) b := hcopying.within w c htask
      have heq : x = c.target := by
        by_contra hne
        exact hx (Function.update_of_ne hne _ _)
      rw [heq]
      exact ⟨s.clientAt slot, _, b, .worker hjob, hservice.constructs, hservice.lt,
        target_mem_region hservice.constructs hservice.lt hassign⟩
  | giveUp | subscribe | sleep | begin | client | finish | unsubscribe | interrupt | receive
  | message | handler | added | send | start | join | dispatcher | stop => exact absurd rfl hx

/-- A buffer that the step does not write keeps its words. -/
theorem memory_of_not_writes {a : Action} (h : (machine cfg).Reachable s)
    (hthreads : ThreadInv cfg s) (hstep : step cfg s a = some t) (hc : cfg.Constructs pid)
    (hb : b < (cfg.arguments pid).k) (hnot : ¬ Writes cfg s a pid vector b) :
    ∀ x ∈ cfg.region pid vector b, t.memory x = s.memory x := by
  intro x hx
  by_contra hne
  obtain ⟨pid', vector', b', hwrites, hc', hb', hx'⟩ := writes_of_step h hthreads hstep hne
  obtain ⟨rfl, rfl, rfl⟩ := eq_of_mem_region hc hb hc' hb' hx hx'
  exact hnot hwrites

/-- A client in its loops has its buffers to itself, except for the one result that the server is
working on. -/
theorem not_writes_of_requests {a : Action} (hphase : s.phase pid = .requests)
    (hresult : vector = .matrixBuffersTr → (∀ t, a ≠ .worker t) ∨
      ∀ slot, s.job = some (slot, b) → s.clientAt slot ≠ pid) : ¬ Writes cfg s a pid vector b := by
  rintro (hconstruct | hjob | hverify)
  · cases hphase.symm.trans hconstruct
  · rcases hresult rfl with hworker | hother
    · exact hworker _ rfl
    · exact hother _ hjob rfl
  · cases hphase.symm.trans hverify

/-! ## The threads keep to their request -/

/-- A step of anyone but the dispatcher leaves the request in service and its context. -/
theorem use_of_cycle {a : TransposeServer.Action} {c c' : RequestCycle.State}
    (hserver : RequestCycle.ServerInv c) (ha : ∀ times, a ≠ .server (.dispatcher times))
    (hstep : TransposeServer.step cfg.uninitialized c a = some c') :
    c'.server.dispatcher = c.server.dispatcher ∧ c'.work = c.work ∧
      ∀ slot, c.server.dispatcher = .use slot →
        c'.server.workspace.clientBank slot = c.server.workspace.clientBank slot := by
  cases TransposeServer.move_of_step hstep with
  | ignored | add | remove | stop => exact ⟨rfl, rfl, fun _ _ => rfl⟩
  | @handler throws ws pc hhandler =>
      refine ⟨rfl, rfl, ?_⟩
      intro slot huse
      have hset := hserver.flag.2
      rw [huse] at hset
      have hclient : ClientBankHandoff.step cfg.uninitialized c.server (.handler throws) =
          some { c.server with workspace := ws, handler := pc } := by
        simp [ClientBankHandoff.step, hhandler]
      exact hserver.clientBank_of_handle (fun _ heq => by cases heq) hclient (Or.inl hset)
  | dispatcher => exact absurd rfl (ha _)
  | client hclient =>
      cases RequestCycle.move_of_step hclient with
      | client => exact ⟨rfl, rfl, fun _ _ => rfl⟩
  | interrupt hinterrupt =>
      cases RequestCycle.move_of_step hinterrupt with
      | interrupt => exact ⟨rfl, rfl, fun _ _ => rfl⟩

theorem job_of_cycle {a : TransposeServer.Action} (h : (machine cfg).Reachable s)
    (ha : ∀ times, a ≠ .server (.dispatcher times))
    (hstep : TransposeServer.step cfg.uninitialized s.cycle a = some t.cycle) :
    (∀ slot b, t.job = some (slot, b) ↔ s.job = some (slot, b)) ∧
      ∀ slot b, s.job = some (slot, b) → t.clientAt slot = s.clientAt slot := by
  obtain ⟨hdispatcher, hwork, hbank⟩ := use_of_cycle (serverInv_of_reachable h) ha hstep
  constructor
  · intro slot b
    rw [job_eq_some, job_eq_some, hdispatcher, hwork]
  · intro slot b hjob
    rw [State.clientAt, hbank slot (job_eq_some.mp hjob).1]

/-- A step that is not one of the threads leaves them as they are, if it leaves the request. -/
theorem ThreadInv.of_job {a : Action} (h : (machine cfg).Reachable s) (hthreads : ThreadInv cfg s)
    (hstep : step cfg s a = some t) (ha : ∀ w, a ≠ .worker w)
    (hsame : t.threads = s.threads)
    (hjob : ∀ slot b, s.job = some (slot, b) → t.job = some (slot, b))
    (hclient : ∀ slot b, s.job = some (slot, b) → t.clientAt slot = s.clientAt slot) :
    ThreadInv cfg t := by
  intro todo htodo
  obtain ⟨slot, b, hserved, hidle, hcopying⟩ := hthreads todo (hsame ▸ htodo)
  have hservice := inService_of_job h hserved
  have hkept : ∀ vector, ∀ x ∈ cfg.region (s.clientAt slot) vector b, t.memory x = s.memory x :=
    fun vector => memory_of_not_writes h hthreads hstep hservice.constructs hservice.lt
      (not_writes_of_requests hservice.phase fun _ => Or.inl ha)
  refine ⟨slot, b, hjob slot b hserved, hidle, ?_⟩
  rw [hclient slot b hserved]
  refine hcopying.of_store rfl ?_ ?_
  · intro c hc
    exact hkept _ _ (source_mem_region hservice.constructs hservice.lt hc)
  · intro c hc
    exact hkept _ _ (target_mem_region hservice.constructs hservice.lt hc)

theorem ThreadInv.of_cycle {a : Action} {ca : TransposeServer.Action}
    (h : (machine cfg).Reachable s) (hthreads : ThreadInv cfg s) (hstep : step cfg s a = some t)
    (ha : ∀ w, a ≠ .worker w) (hsame : t.threads = s.threads)
    (hca : ∀ times, ca ≠ .server (.dispatcher times))
    (hcycle : TransposeServer.step cfg.uninitialized s.cycle ca = some t.cycle) :
    ThreadInv cfg t := by
  obtain ⟨hjob, hclient⟩ := job_of_cycle h hca hcycle
  exact hthreads.of_job h hstep ha hsame (fun slot b => (hjob slot b).mpr) hclient

theorem threadInv_step {a : Action} (hsuited : cfg.Suited) (h : (machine cfg).Reachable s)
    (hthreads : ThreadInv cfg s) (hstep : step cfg s a = some t) : ThreadInv cfg t := by
  have hkeep := ThreadInv.of_job h hthreads hstep
  cases move_of_step hstep with
  | giveUp | construct | subscribe | sleep | begin | finish | unsubscribe | verify | receive
  | send => exact hkeep (by simp) rfl (fun _ _ => id) fun _ _ _ => rfl
  | client _ hcycle | interrupt hcycle | message _ _ hcycle | handler _ hcycle | added _ hcycle
  | stop hcycle =>
      exact hthreads.of_cycle h hstep (by simp) rfl (by simp) hcycle
  | dispatcher hjob =>
      intro todo htodo
      obtain ⟨slot, b, hserved, -⟩ := hthreads todo htodo
      cases hjob.symm.trans hserved
  | join =>
      intro todo htodo
      cases htodo
  | @start _ slot b original transposed hjob _ horiginal htransposed =>
      intro todo htodo
      cases htodo
      have hservice := inService_of_job h hjob
      refine ⟨slot, b, hjob, ?_, underway_start hsuited hservice horiginal htransposed s.memory⟩
      intro worker hworker
      simp only [tiledPool, if_neg hworker]
  | @worker w todo c rest hsome htodo =>
      intro todo' htodo'
      cases htodo'
      obtain ⟨slot, b, hserved, hidle, hcopying⟩ := hthreads todo hsome
      have hservice := inService_of_job h hserved
      refine ⟨slot, b, hserved, ?_, ?_⟩
      · intro worker hworker
        by_cases heq : worker = w
        · subst heq
          cases htodo.symm.trans (hidle worker hworker)
        · rw [Function.update_of_ne heq]
          exact hidle worker hworker
      · have hpool : Pool.step Assign.run { store := s.memory, todo := todo } w =
            some { store := c.run s.memory, todo := Function.update todo w rest } := by
          simp only [Pool.step, htodo]
        exact hcopying.step (consistent_assigns hservice.constructs hservice.lt) hpool

theorem threadInv_of_reachable (hsuited : cfg.Suited) (h : (machine cfg).Reachable s) :
    ThreadInv cfg s := by
  apply h.induction ?_ fun _ _ _ hs hthreads hstep => threadInv_step hsuited hs hthreads hstep
  rintro s ⟨memory, rfl⟩ todo htodo
  cases htodo

end MatrixTransposer.Deployment
