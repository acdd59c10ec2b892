import MatrixTransposer.Proof.DeploymentService

/-!
# The whole is a transposition service

Any number of clients and the server, with all their queues, futexes, sockets and threads, do what
`TranspositionService` does: a request is made when `main` comes to it, it is served when the
threads have been joined, and it is answered when the client has been woken. The words of the
matrices and the results are those of the service, except for the result that is being written.
-/

namespace MatrixTransposer

open Lib

/-! ## What the stages are to the service -/

namespace RequestCycle

variable {stage after : Stage} {c c' : Client} {work work' : WorkPc} {events : List Event}
  {b : UInt32}

def Stage.status : Stage → TranspositionService.Status UInt32
  | .resting => .idle
  | .calling bufferIndex | .posted bufferIndex | .taken bufferIndex => .requested bufferIndex
  | .transposed bufferIndex | .raised bufferIndex => .served bufferIndex

theorem LocalMove.status (h : LocalMove c stage work false c' after work' events)
    (hevents : ∀ bufferIndex, .transposed bufferIndex ∉ events) : after.status = stage.status := by
  cases h with
  | interrupt | leave | other => rfl
  | serve hmove =>
      cases hmove with
      | transpose => exact absurd (List.mem_singleton_self _) (hevents _)
      | callDequeue | dequeue | gaveUp | dequeued | callWake | raise | wakeAll => rfl

/-- The client has been woken from its request for the buffer. -/
def MainPc.Past (requestRepetitions b : UInt32) : MainPc → Prop
  | .loop repetition bufferIndex | .enqueue repetition bufferIndex
  | .callWait repetition bufferIndex | .wait repetition bufferIndex =>
      0 < repetition ∨ b < bufferIndex
  | .done => 0 < requestRepetitions

theorem MainMove.past (h : MainMove c stage c' after events) (hb : b < c.k)
    (hpast : c'.main.Past c.requestRepetitions b) :
    c.main.Past c.requestRepetitions b ∨ .waited b ∈ events := by
  cases h with
  | call hpc | enqueued hpc | callWait hpc =>
      left
      rw [hpc]
      exact hpast
  | enqueue | wait => exact Or.inl hpast
  | next hpc _ hindex =>
      left
      rw [hpc]
      exact Or.inr (UInt32.lt_of_lt_of_le hb (UInt32.not_lt.mp hindex))
  | finish hpc hrep =>
      left
      rw [hpc]
      exact Or.inl (UInt32.lt_of_lt_of_le hpast (UInt32.not_lt.mp hrep))
  | @waited repetition bufferIndex hpc =>
      by_cases heq : b = bufferIndex
      · exact Or.inr (heq ▸ List.mem_singleton_self _)
      · left
        rw [hpc]
        refine hpast.imp_right ?_
        intro hlt
        rw [UInt32.lt_iff_toNat_lt, UInt32.toNat_add, UInt32.toNat_one] at hlt
        have hne : b.toNat ≠ bufferIndex.toNat := fun h => heq (UInt32.toNat_inj.mp h)
        have hle := Nat.mod_le (bufferIndex.toNat + 1) (2 ^ 32)
        rw [UInt32.lt_iff_toNat_lt]
        omega

end RequestCycle

namespace Deployment

open RequestCycle (Client Event MainPc MainMove Stage)
open TransposeClient (BufferVector)
open TranspositionService (setStatus_status_self setStatus_status_of_ne)

variable {cfg : Config} {s t : State} {pid b : UInt32} {slot : Fin maxClients}
  {σ : cfg.ServiceState}

abbrev service (cfg : Config) : Machine cfg.ServiceState cfg.ServiceAction :=
  TranspositionService.machine UInt32 UInt64 cfg.Rows cfg.Cols

/-- What a step of a client's loops is to the service. -/
theorem exec_client {c c' : Client} {stage after : Stage} {events : List Event}
    (h : MainMove c stage c' after events) (hstatus : σ.status pid = stage.status) :
    ∃ σ', (service cfg).exec σ (events.filterMap (serviceAction cfg pid)) = some σ' ∧
      σ'.status = Function.update σ.status pid after.status ∧ σ'.matrix = σ.matrix ∧
      σ'.result = σ.result ∧ (∀ p ≠ pid, σ'.answered p = σ.answered p) ∧
      ∀ b, b ∈ σ.answered pid ∨ .waited b ∈ events → b ∈ σ'.answered pid := by
  have hsame : Function.update σ.status pid stage.status = σ.status := by
    rw [← hstatus, Function.update_eq_self]
  cases h with
  | @call _ bufferIndex =>
      have hstep : (service cfg).step σ (.request pid bufferIndex) =
          some (σ.setStatus pid (.requested bufferIndex)) := if_pos hstatus
      refine ⟨_, Machine.exec_singleton.mpr hstep, rfl, rfl, rfl, fun _ _ => rfl, ?_⟩
      rintro b (hb | hb)
      · exact hb
      · simp at hb
  | @waited _ bufferIndex =>
      have hstep : (service cfg).step σ (.answer pid bufferIndex) =
          some ((σ.setStatus pid .idle).setAnswered pid (insert bufferIndex (σ.answered pid))) :=
        if_pos hstatus
      refine ⟨_, Machine.exec_singleton.mpr hstep, rfl, rfl, rfl, ?_, ?_⟩
      · intro p hp
        exact TranspositionService.setAnswered_answered_of_ne _ hp _
      · intro b hb
        rw [TranspositionService.setAnswered_answered_self]
        rcases hb with hb | hb
        · exact Set.mem_insert_of_mem _ hb
        · simp only [List.mem_singleton, Event.waited.injEq] at hb
          exact hb ▸ Set.mem_insert _ _
  | next | finish | enqueue | enqueued | callWait | wait =>
      refine ⟨σ, rfl, hsame.symm, rfl, rfl, fun _ _ => rfl, ?_⟩
      rintro b (hb | hb)
      · exact hb
      · simp at hb

/-! ## The relation -/

/-- The threads are at work on the buffer of the client. -/
def State.Serves (s : State) (pid b : UInt32) : Prop :=
  ∃ slot, s.job = some (slot, b) ∧ s.clientAt slot = pid

structure Represents (cfg : Config) (s : State) (σ : cfg.ServiceState) : Prop where
  status : ∀ pid, ∃ stage, (s.cycle.clients pid).At stage (s.cycle.workOn pid) ∧
    σ.status pid = stage.status
  matrix : ∀ pid, (s.buffers pid).isSome → ∀ b < (cfg.arguments pid).k,
    σ.matrix pid b = cfg.matrixAt s.memory pid b
  result : ∀ pid, (s.buffers pid).isSome → ∀ b < (cfg.arguments pid).k, ¬ s.Serves pid b →
    σ.result pid b = cfg.resultAt s.memory pid b
  answered : ∀ pid, ∀ b < (cfg.arguments pid).k,
    (s.cycle.clients pid).main.Past (cfg.arguments pid).requestRepetitions b →
      b ∈ σ.answered pid

/-- A step of which the service sees nothing. -/
theorem Represents.of_quiet (h : Represents cfg s σ)
    (hstatus : ∀ pid stage, (s.cycle.clients pid).At stage (s.cycle.workOn pid) →
      ∃ after, (t.cycle.clients pid).At after (t.cycle.workOn pid) ∧ after.status = stage.status)
    (hbuffers : t.buffers = s.buffers) (hserves : ∀ pid b, s.Serves pid b → t.Serves pid b)
    (hmatrix : ∀ pid, (s.buffers pid).isSome → ∀ b < (cfg.arguments pid).k,
      ∀ x ∈ cfg.region pid .matrixBuffers b, t.memory x = s.memory x)
    (hresult : ∀ pid, (s.buffers pid).isSome → ∀ b < (cfg.arguments pid).k, ¬ s.Serves pid b →
      ∀ x ∈ cfg.region pid .matrixBuffersTr b, t.memory x = s.memory x)
    (hmain : ∀ pid, (t.cycle.clients pid).main = (s.cycle.clients pid).main) :
    Represents cfg t σ where
  status pid := by
    obtain ⟨stage, hat, heq⟩ := h.status pid
    obtain ⟨after, hat', hafter⟩ := hstatus pid stage hat
    exact ⟨after, hat', heq.trans hafter.symm⟩
  matrix pid hbuilt b hb := by
    rw [hbuffers] at hbuilt
    rw [h.matrix pid hbuilt b hb, matrixAt_congr (hmatrix pid hbuilt b hb)]
  result pid hbuilt b hb hnot := by
    rw [hbuffers] at hbuilt
    have hbefore : ¬ s.Serves pid b := fun hserved => hnot (hserves pid b hserved)
    rw [h.result pid hbuilt b hb hbefore, resultAt_congr (hresult pid hbuilt b hb hbefore)]
  answered pid b hb hpast := by
    rw [hmain pid] at hpast
    exact h.answered pid b hb hpast

/-- A step that leaves the server and the clients' loops where they are. -/
theorem Represents.of_cycle_eq (h : Represents cfg s σ) (hcycle : t.cycle = s.cycle)
    (hbuffers : t.buffers = s.buffers)
    (hmatrix : ∀ pid, (s.buffers pid).isSome → ∀ b < (cfg.arguments pid).k,
      ∀ x ∈ cfg.region pid .matrixBuffers b, t.memory x = s.memory x)
    (hresult : ∀ pid, (s.buffers pid).isSome → ∀ b < (cfg.arguments pid).k, ¬ s.Serves pid b →
      ∀ x ∈ cfg.region pid .matrixBuffersTr b, t.memory x = s.memory x) :
    Represents cfg t σ := by
  apply h.of_quiet ?_ hbuffers ?_ hmatrix hresult ?_
  · intro pid stage hat
    rw [hcycle]
    exact ⟨stage, hat, rfl⟩
  · intro pid b hserved
    simpa only [State.Serves, State.job, State.clientAt, hcycle] using hserved
  · intro pid
    rw [hcycle]

/-! ## The steps of the server and its clients -/

theorem not_transposed_of_job {times : Option (UInt64 × UInt64)} (hjob : s.job = none) :
    .transposed b ∉ TransposeServer.observe pid s.cycle (.server (.dispatcher times)) := by
  simp only [TransposeServer.observe, RequestCycle.observe]
  split
  case h_2 => exact List.not_mem_nil
  case h_1 slot huse =>
    split
    case isFalse => exact List.not_mem_nil
    case isTrue =>
      cases hwork : s.cycle.work with
      | transpose bufferIndex =>
          rw [job_eq_some.mpr ⟨huse, hwork⟩] at hjob
          cases hjob
      | callDequeue | dequeue | callWake | wake | leave => simp [Client.servingShows]

/-- A step of which a client sees nothing but its word, its queue or the server. -/
theorem status_of_cycle {ca : TransposeServer.Action} (hreach : (machine cfg).Reachable s)
    (hown : ca.isClient pid = false) (hevents : ∀ b, .transposed b ∉
      TransposeServer.observe pid s.cycle ca)
    (hstep : TransposeServer.step cfg.uninitialized s.cycle ca = some t.cycle) {stage : Stage}
    (hat : (s.cycle.clients pid).At stage (s.cycle.workOn pid)) :
    (∃ after, (t.cycle.clients pid).At after (t.cycle.workOn pid) ∧
      after.status = stage.status) ∧
        (t.cycle.clients pid).main = (s.cycle.clients pid).main := by
  obtain ⟨after, hmove, hat'⟩ :=
    TransposeServer.localMove_of_step (serverInv_of_reachable hreach) hat hstep
  rw [hown] at hmove
  exact ⟨⟨after, hat', hmove.status hevents⟩, hmove.main_eq⟩

theorem Represents.of_cycle {ca : TransposeServer.Action} (h : Represents cfg s σ)
    (hreach : (machine cfg).Reachable s) (hown : ∀ pid, ca.isClient pid = false)
    (hevents : ∀ pid b, .transposed b ∉ TransposeServer.observe pid s.cycle ca)
    (hstep : TransposeServer.step cfg.uninitialized s.cycle ca = some t.cycle)
    (hbuffers : t.buffers = s.buffers) (hmemory : t.memory = s.memory)
    (hserves : ∀ pid b, s.Serves pid b → t.Serves pid b) : Represents cfg t σ := by
  apply h.of_quiet ?_ hbuffers hserves ?_ ?_ ?_
  · intro pid stage hat
    exact (status_of_cycle hreach (hown pid) (hevents pid) hstep hat).1
  · intro pid _ b _ x _
    rw [hmemory]
  · intro pid _ b _ _ x _
    rw [hmemory]
  · intro pid
    obtain ⟨stage, hat, -⟩ := h.status pid
    exact (status_of_cycle hreach (hown pid) (hevents pid) hstep hat).2

theorem serves_of_cycle {ca : TransposeServer.Action} (hreach : (machine cfg).Reachable s)
    (hca : ∀ times, ca ≠ .server (.dispatcher times))
    (hstep : TransposeServer.step cfg.uninitialized s.cycle ca = some t.cycle) :
    t.Serves pid b ↔ s.Serves pid b := by
  obtain ⟨hjob, hclient⟩ := job_of_cycle hreach hca hstep
  constructor
  · rintro ⟨slot, htjob, rfl⟩
    have hsjob := (hjob slot b).mp htjob
    exact ⟨slot, hsjob, (hclient slot b hsjob).symm⟩
  · rintro ⟨slot, hsjob, rfl⟩
    exact ⟨slot, (hjob slot b).mpr hsjob, hclient slot b hsjob⟩

theorem Represents.client {cycle : RequestCycle.State} (h : Represents cfg s σ)
    (hreach : (machine cfg).Reachable s)
    (hstep : TransposeServer.step cfg.uninitialized s.cycle (.client pid) = some cycle) :
    ∃ σ', (service cfg).exec σ
        ((s.cycle.clients pid).shows.filterMap (serviceAction cfg pid)) = some σ' ∧
      Represents cfg { s with cycle := cycle } σ' := by
  obtain ⟨stage, hat, hstatus⟩ := h.status pid
  obtain ⟨after, hmove, hat'⟩ :=
    TransposeServer.localMove_of_step (serverInv_of_reachable hreach) hat hstep
  have hown : (TransposeServer.Action.client pid).isClient pid = true := beq_self_eq_true pid
  have hshows : TransposeServer.observe pid s.cycle (.client pid) =
      (s.cycle.clients pid).shows := if_pos rfl
  rw [hown, hshows] at hmove
  obtain ⟨hmain, hwork⟩ : MainMove (s.cycle.clients pid) stage (cycle.clients pid) after
      (s.cycle.clients pid).shows ∧ cycle.workOn pid = s.cycle.workOn pid := by
    generalize hafter : cycle.workOn pid = work at hmove
    generalize hevents : (s.cycle.clients pid).shows = events at hmove
    cases hmove with
    | main hmain => exact ⟨hmain, rfl⟩
  obtain ⟨σ', hexec, hstatus', hmatrix, hresult, hothers, hanswered⟩ :=
    exec_client hmain hstatus
  have hserves : ∀ {p b}, ({ s with cycle := cycle } : State).Serves p b ↔ s.Serves p b :=
    serves_of_cycle hreach (by simp) hstep
  have hother : ∀ p, p ≠ pid → ∀ {stage}, (s.cycle.clients p).At stage (s.cycle.workOn p) →
      (∃ after, (cycle.clients p).At after (cycle.workOn p) ∧ after.status = stage.status) ∧
        (cycle.clients p).main = (s.cycle.clients p).main := by
    intro p hp stage hat
    have hnot : (TransposeServer.Action.client pid).isClient p = false :=
      beq_eq_false_iff_ne.mpr hp.symm
    have hnone : TransposeServer.observe p s.cycle (.client pid) = [] := if_neg hp.symm
    exact status_of_cycle (t := { s with cycle := cycle }) hreach hnot (by simp [hnone]) hstep hat
  refine ⟨σ', hexec, ?_, ?_, ?_, ?_⟩
  · intro p
    rw [hstatus']
    by_cases hp : p = pid
    · subst hp
      exact ⟨after, hat', Function.update_self _ _ _⟩
    · obtain ⟨stage, hat, heq⟩ := h.status p
      obtain ⟨⟨after, hat', hafter⟩, -⟩ := hother p hp hat
      exact ⟨after, hat', (Function.update_of_ne hp _ _).trans (heq.trans hafter.symm)⟩
  · intro p hbuilt b hb
    rw [hmatrix]
    exact h.matrix p hbuilt b hb
  · intro p hbuilt b hb hnot
    rw [hresult]
    exact h.result p hbuilt b hb fun hserved => hnot (hserves.mpr hserved)
  · intro p b hb hpast
    by_cases hp : p = pid
    · subst hp
      have hfacts := clientFacts_of_reachable hreach p
      rw [← hfacts.requestRepetitions] at hpast
      apply hanswered
      refine (hmain.past (hfacts.k ▸ hb) hpast).imp_left ?_
      intro hbefore
      rw [hfacts.requestRepetitions] at hbefore
      exact h.answered p b hb hbefore
    · obtain ⟨stage, hat, -⟩ := h.status p
      rw [hothers p hp]
      have hpast' : (cycle.clients p).main.Past (cfg.arguments p).requestRepetitions b := hpast
      rw [(hother p hp hat).2] at hpast'
      exact h.answered p b hb hpast'

/-! ## The matrices are put up -/

theorem Represents.construct {a : Action} {throws : Bool} {fails : BufferVector → UInt32 → Bool}
    {dist : UInt32 → Nat → UInt64} {buffers : TransposeClient.ClientBuffers} {memory : Memory}
    (h : Represents cfg s σ) (hreach : (machine cfg).Reachable s) (hthreads : ThreadInv cfg s)
    (ha : a = .construct pid throws fails dist) (hphase : s.phase pid = .construct)
    (hstep : step cfg s a = some t)
    (ht : t = { s with
      phase := Function.update s.phase pid .subscribe
      buffers := Function.update s.buffers pid (some buffers)
      memory := memory }) :
    ∃ σ', (service cfg).step σ (.load pid (cfg.matrixAt memory pid) (cfg.resultAt memory pid)) =
        some σ' ∧ Represents cfg t σ' := by
  have hcycle : t.cycle = s.cycle := by rw [ht]
  have hmemory : t.memory = memory := by rw [ht]
  have hbuffers : ∀ p ≠ pid, t.buffers p = s.buffers p := by
    intro p hp
    rw [ht]
    exact Function.update_of_ne hp _ _
  have hmain : (s.cycle.clients pid).main = .loop 0 0 := by
    have hfacts := (clientFacts_of_reachable hreach pid).phase
    rw [hphase] at hfacts
    exact hfacts.1
  have hidle : σ.status pid = .idle := by
    obtain ⟨stage, hat, hstatus⟩ := h.status pid
    have hstage := hat.main
    rw [hmain] at hstage
    rw [hstatus, hstage.1]
    rfl
  have hkept : ∀ p ≠ pid, (t.buffers p).isSome → ∀ vector, ∀ b < (cfg.arguments p).k,
      ∀ x ∈ cfg.region p vector b, memory x = s.memory x := by
    intro p hp hbuilt vector b hb
    rw [hbuffers p hp] at hbuilt
    obtain ⟨buffers, hbuilt⟩ := Option.isSome_iff_exists.mp hbuilt
    rw [← hmemory]
    apply memory_of_not_writes hreach hthreads hstep (constructs_of_buffers hreach hbuilt) hb
    rw [ha]
    rintro ⟨⟩
    exact hp rfl
  refine ⟨_, if_pos hidle, ?_, ?_, ?_, ?_⟩
  · rw [hcycle]
    exact h.status
  · intro p hbuilt b hb
    by_cases hp : p = pid
    · subst hp
      simp only [hmemory, Function.update_self]
    · have hbefore := h.matrix p (hbuffers p hp ▸ hbuilt) b hb
      simp only [hmemory, Function.update_of_ne hp]
      rw [matrixAt_congr (hkept p hp hbuilt _ b hb)]
      exact hbefore
  · intro p hbuilt b hb hnot
    by_cases hp : p = pid
    · subst hp
      simp only [hmemory, Function.update_self]
    · have hserves : ¬ s.Serves p b := by
        simpa only [State.Serves, State.job, State.clientAt, hcycle] using hnot
      have hbefore := h.result p (hbuffers p hp ▸ hbuilt) b hb hserves
      simp only [hmemory, Function.update_of_ne hp]
      rw [resultAt_congr (hkept p hp hbuilt _ b hb)]
      exact hbefore
  · intro p b hb hpast
    rw [hcycle] at hpast
    by_cases hp : p = pid
    · subst hp
      rw [hmain] at hpast
      rcases hpast with hlt | hlt
      · exact absurd hlt (by decide)
      · exact absurd hlt UInt32.not_lt_zero
    · have hanswered := h.answered p b hb hpast
      rwa [← TranspositionService.setAnswered_answered_of_ne σ hp ∅] at hanswered

/-! ## The request is served -/

theorem joined_of_joined {todo : UInt32 → List (Assign Nat)} {memory : Memory}
    (hidle : ∀ worker, ¬ worker < cfg.numWorkerThreads → todo worker = [])
    (hjoined : joined cfg todo = true) :
    ({ store := memory, todo := todo } : Pool UInt32 (Assign Nat) Memory).Joined := by
  intro worker
  by_cases hworker : worker < cfg.numWorkerThreads
  · have hall := List.all_eq_true.mp hjoined worker (mem_upTo.mpr ⟨UInt32.zero_le, hworker⟩)
    exact List.isEmpty_iff.mp hall
  · exact hidle worker hworker

/-- The dispatcher's step on the request in service. -/
theorem cycle_of_job {times : Option (UInt64 × UInt64)} {cycle : RequestCycle.State}
    (hjob : s.job = some (slot, b))
    (hstep : TransposeServer.step cfg.uninitialized s.cycle (.server (.dispatcher times)) =
      some cycle) :
    cycle.work = .callWake ∧ ∀ p, TransposeServer.observe p s.cycle (.server (.dispatcher times)) =
      if s.clientAt slot = p then [.transposed b] else [] := by
  obtain ⟨huse, hwork⟩ := job_eq_some.mp hjob
  constructor
  · have hmove : RequestCycle.step cfg.uninitialized s.cycle (.server (.dispatcher times)) =
        some cycle := hstep
    cases RequestCycle.move_of_step hmove with
    | serve _ _ hserve =>
        rw [hwork] at hserve
        cases hserve
        rfl
    | leave _ hleave => cases hwork.symm.trans hleave
    | scan hscan => exact absurd huse (hscan slot)
    | handle ha => exact absurd rfl (ha times)
  · intro p
    simp only [TransposeServer.observe, RequestCycle.observe, huse, hwork,
      RequestCycle.WorkPc.clientPid, Option.some.injEq, Client.servingShows]

theorem Represents.join {times : Option (UInt64 × UInt64)} {todo : UInt32 → List (Assign Nat)}
    {cycle : RequestCycle.State} (h : Represents cfg s σ) (hreach : (machine cfg).Reachable s)
    (hthreads : ThreadInv cfg s) (hjob : s.job = some (slot, b)) (hsome : s.threads = some todo)
    (hjoined : joined cfg todo = true)
    (hstep : TransposeServer.step cfg.uninitialized s.cycle (.server (.dispatcher times)) =
      some cycle) :
    ∃ σ', (service cfg).step σ (.serve (s.clientAt slot) b) = some σ' ∧
      Represents cfg { s with cycle := cycle, threads := none } σ' := by
  have hservice := inService_of_job hreach hjob
  obtain ⟨hwork, hobserve⟩ := cycle_of_job hjob hstep
  obtain ⟨stage, hat, hstatus⟩ := h.status (s.clientAt slot)
  have hstage := hat.work
  rw [hservice.workOn] at hstage
  obtain ⟨rfl, -⟩ := hstage
  -- what each client sees of the step
  have hafter : ∀ p stage, (s.cycle.clients p).At stage (s.cycle.workOn p) →
      (cycle.clients p).main = (s.cycle.clients p).main ∧
        ∃ after, (cycle.clients p).At after (cycle.workOn p) ∧
          after.status = if s.clientAt slot = p then .served b else stage.status := by
    intro p stage hat
    obtain ⟨after, hmove, hat'⟩ :=
      TransposeServer.localMove_of_step (serverInv_of_reachable hreach) hat hstep
    have hown : (TransposeServer.Action.server (.dispatcher times)).isClient p = false := rfl
    rw [hown, hobserve p] at hmove
    refine ⟨hmove.main_eq, after, hat', ?_⟩
    by_cases hp : s.clientAt slot = p
    · rw [if_pos hp] at hmove ⊢
      generalize (cycle.clients p) = c' at hmove
      generalize (cycle.workOn p) = work' at hmove
      generalize (s.cycle.workOn p) = work at hmove
      generalize hevents : [Event.transposed b] = events at hmove
      cases hmove with
      | serve hserve =>
          cases hserve with
          | transpose =>
              cases hevents
              rfl
          | callDequeue | dequeue | gaveUp | dequeued | callWake | raise | wakeAll =>
              cases hevents
      | interrupt | leave | other => cases hevents
    · rw [if_neg hp] at hmove ⊢
      exact hmove.status fun _ => List.not_mem_nil
  have hrequested : σ.status (s.clientAt slot) = .requested b := hstatus
  refine ⟨_, if_pos hrequested, ?_, h.matrix, ?_, ?_⟩
  · intro p
    obtain ⟨stage, hat, hstatus⟩ := h.status p
    obtain ⟨-, after, hat', hafter⟩ := hafter p stage hat
    refine ⟨after, hat', ?_⟩
    rw [hafter]
    by_cases hp : s.clientAt slot = p
    · subst hp
      rw [if_pos rfl]
      exact setStatus_status_self _ _ _
    · rw [if_neg hp, ← hstatus]
      exact setStatus_status_of_ne _ (Ne.symm hp) _
  · intro p hbuilt b' hb' _
    by_cases hp : p = s.clientAt slot ∧ b' = b
    · obtain ⟨rfl, rfl⟩ := hp
      obtain ⟨slot', b'', hjob', hidle, hcopying⟩ := hthreads todo hsome
      cases hjob.symm.trans hjob'
      have hcopied : cfg.resultAt s.memory (s.clientAt slot) b' =
          (cfg.matrixAt s.memory (s.clientAt slot) b').transpose :=
        resultAt_of_copied hservice.constructs hservice.lt fun c hc =>
          hcopying.copied_of_joined (joined_of_joined hidle hjoined) hc
      calc
        _ = (σ.matrix (s.clientAt slot) b').transpose :=
          TranspositionService.transpose_result_self σ _ _
        _ = (cfg.matrixAt s.memory (s.clientAt slot) b').transpose := by
          rw [h.matrix _ hbuilt b' hb']
        _ = _ := hcopied.symm
    · refine (TranspositionService.transpose_result_of_ne σ hp).trans ?_
      apply h.result p hbuilt b' hb'
      rintro ⟨slot', hjob', rfl⟩
      cases hjob.symm.trans hjob'
      exact hp ⟨rfl, rfl⟩
  · intro p b' hb' hpast
    obtain ⟨stage, hat, -⟩ := h.status p
    have hpast' : (cycle.clients p).main.Past (cfg.arguments p).requestRepetitions b' := hpast
    rw [(hafter p stage hat).1] at hpast'
    exact h.answered p b' hb' hpast'

/-! ## Every step -/

/-- A step of the service's relation that shows nothing. -/
theorem exists_exec_of_nil {a : Action} (hshows : observe cfg s a = [])
    (ht : Represents cfg t σ) :
    ∃ σ', (service cfg).exec σ (observe cfg s a) = some σ' ∧ Represents cfg t σ' := by
  rw [hshows]
  exact ⟨σ, rfl, ht⟩

theorem observe_main_of_ne (hphase : s.phase pid ≠ .requests) :
    observe cfg s (.main pid) = [] := by
  simp only [observe, if_neg hphase]

theorem represents_step {a : Action} (hsuited : cfg.Suited) (hreach : (machine cfg).Reachable s)
    (h : Represents cfg s σ) (hstep : step cfg s a = some t) :
    ∃ σ', (service cfg).exec σ (observe cfg s a) = some σ' ∧ Represents cfg t σ' := by
  have hthreads := threadInv_of_reachable hsuited hreach
  have hquiet : t.memory = s.memory → t.cycle = s.cycle → t.buffers = s.buffers →
      Represents cfg t σ := by
    intro hmemory hcycle hbuffers
    refine h.of_cycle_eq hcycle hbuffers ?_ ?_
    · intro p _ b _ x _
      rw [hmemory]
    · intro p _ b _ _ x _
      rw [hmemory]
  cases move_of_step hstep with
  | @giveUp pid throws fails dist _ hnone =>
      apply exists_exec_of_nil ?_ (hquiet rfl rfl rfl)
      simp only [observe, hnone]
  | @construct pid throws fails dist buffers memory hphase _ hsome =>
      obtain ⟨σ', hload, ht⟩ := h.construct hreach hthreads rfl hphase hstep rfl
      refine ⟨σ', ?_, ht⟩
      simp only [observe, hsome]
      exact Machine.exec_singleton.mpr hload
  | subscribe hphase | sleep hphase | begin hphase | unsubscribe hphase =>
      exact exists_exec_of_nil (observe_main_of_ne (by simp [hphase])) (hquiet rfl rfl rfl)
  | client hphase hclient =>
      obtain ⟨σ', hexec, ht⟩ := h.client hreach hclient
      refine ⟨σ', ?_, ht⟩
      simp only [observe, if_pos hphase]
      exact hexec
  | finish hphase hdone =>
      apply exists_exec_of_nil ?_ (hquiet rfl rfl rfl)
      simp only [observe, if_pos hphase, Client.shows, hdone, List.filterMap_nil]
  | @verify pid buffers v hphase hbuffers hverify =>
      apply exists_exec_of_nil (observe_main_of_ne (by simp [hphase]))
      refine h.of_cycle_eq rfl rfl ?_ ?_
      · intro p hbuilt b hb
        obtain ⟨buffers', hbuilt⟩ := Option.isSome_iff_exists.mp hbuilt
        refine memory_of_not_writes hreach hthreads hstep (constructs_of_buffers hreach hbuilt) hb ?_
        rintro ⟨⟩
      · intro p hbuilt b hb _
        obtain ⟨buffers', hbuilt⟩ := Option.isSome_iff_exists.mp hbuilt
        refine memory_of_not_writes hreach hthreads hstep (constructs_of_buffers hreach hbuilt) hb ?_
        rintro ⟨⟩
  | interrupt hcycle | message _ _ hcycle | handler _ hcycle | added _ hcycle | stop hcycle =>
      apply exists_exec_of_nil rfl
      refine h.of_cycle hreach (fun _ => rfl) (fun _ _ => List.not_mem_nil) hcycle rfl rfl ?_
      intro p b
      exact (serves_of_cycle hreach (by simp) hcycle).mpr
  | receive | send => exact exists_exec_of_nil rfl (hquiet rfl rfl rfl)
  | start hjob hidle =>
      apply exists_exec_of_nil ?_ (hquiet rfl rfl rfl)
      simp only [observe, hjob, hidle]
  | join hjob hsome hjoined hcycle =>
      obtain ⟨σ', hserve, ht⟩ := h.join hreach hthreads hjob hsome hjoined hcycle
      refine ⟨σ', ?_, ht⟩
      simp only [observe, hjob, hsome]
      exact Machine.exec_singleton.mpr hserve
  | dispatcher hjob hcycle =>
      apply exists_exec_of_nil
      · simp only [observe, hjob]
      · refine h.of_cycle hreach (fun _ => rfl) (fun _ _ => not_transposed_of_job hjob) hcycle rfl
          rfl ?_
        rintro p b ⟨slot, hsome, -⟩
        cases hjob.symm.trans hsome
  | @worker w todo c rest hsome htodo =>
      apply exists_exec_of_nil rfl
      refine h.of_cycle_eq rfl rfl ?_ ?_
      · intro p hbuilt b hb
        obtain ⟨buffers, hbuilt⟩ := Option.isSome_iff_exists.mp hbuilt
        refine memory_of_not_writes hreach hthreads hstep (constructs_of_buffers hreach hbuilt) hb ?_
        rintro ⟨⟩
      · intro p hbuilt b hb hnot
        obtain ⟨buffers, hbuilt⟩ := Option.isSome_iff_exists.mp hbuilt
        refine memory_of_not_writes hreach hthreads hstep (constructs_of_buffers hreach hbuilt) hb ?_
        rintro (- | hjob)
        exact hnot ⟨_, hjob, rfl⟩

theorem represents_initial (cfg : Config) (memory : Memory) :
    ∃ σ, (service cfg).init σ ∧ Represents cfg (initial cfg memory) σ := by
  refine ⟨{ status := fun _ => .idle, matrix := fun _ _ => 0, result := fun _ _ => 0,
            answered := fun _ => ∅ }, fun _ => ⟨rfl, rfl⟩, ?_, ?_, ?_, ?_⟩
  · intro pid
    exact ⟨.resting, RequestCycle.Client.at_start _ _, rfl⟩
  · intro pid hbuilt
    cases hbuilt
  · intro pid hbuilt
    cases hbuilt
  · rintro pid b _ (hlt | hlt)
    · exact absurd hlt (by decide)
    · exact absurd hlt UInt32.not_lt_zero

end Deployment

end MatrixTransposer
