import MatrixTransposer.Proof.Deployment

/-!
# The clients of the whole

What holds of a client in each phase of its `main`. Only the steps of that `main` change the phase,
the buffers, and where its loops stand.
-/

namespace MatrixTransposer

open Lib

/-! ## The loops -/

namespace RequestCycle

variable {stage after : Stage} {c c' : Client} {work work' : WorkPc} {own : Bool}
  {events : List Event}

/-- The request that `main` makes is within the bounds of its loops. -/
def MainPc.Within (k requestRepetitions : UInt32) : MainPc → Prop
  | .loop _ _ | .done => True
  | .enqueue repetition bufferIndex | .callWait repetition bufferIndex
  | .wait repetition bufferIndex => repetition < requestRepetitions ∧ bufferIndex < k

theorem MainMove.bounds (h : MainMove c stage c' after events) :
    c'.k = c.k ∧ c'.requestRepetitions = c.requestRepetitions := by
  cases h <;> exact ⟨rfl, rfl⟩

theorem MainMove.within (h : MainMove c stage c' after events)
    (hmain : c.main.Within c.k c.requestRepetitions) :
    c'.main.Within c.k c.requestRepetitions := by
  cases h with
  | call _ hrep hindex => exact ⟨hrep, hindex⟩
  | next | finish | waited => trivial
  | enqueue | wait => exact hmain
  | enqueued hpc | callWait hpc =>
      rw [hpc] at hmain
      exact hmain

theorem LocalMove.bounds (h : LocalMove c stage work own c' after work' events) :
    c'.k = c.k ∧ c'.requestRepetitions = c.requestRepetitions := by
  cases h with
  | main hmove => exact hmove.bounds
  | serve hmove => exact hmove.frame.2
  | interrupt | leave | other => exact ⟨rfl, rfl⟩

theorem LocalMove.within (h : LocalMove c stage work own c' after work' events)
    (hmain : c.main.Within c.k c.requestRepetitions) :
    c'.main.Within c.k c.requestRepetitions := by
  cases h with
  | main hmove => exact hmove.within hmain
  | serve hmove =>
      rw [hmove.frame.1]
      exact hmain
  | interrupt | leave | other => exact hmain

theorem LocalMove.main_eq (h : LocalMove c stage work false c' after work' events) :
    c'.main = c.main := by
  cases h with
  | serve hmove => exact hmove.frame.1
  | interrupt | leave | other => rfl

end RequestCycle

namespace TransposeServer

open RequestCycle (LocalMove ServerInv Stage)

variable {uninitialized : Int32} {c c' : RequestCycle.State} {pid : UInt32} {stage : Stage}

def Action.isClient (pid : UInt32) : Action → Bool
  | .client p => p == pid
  | _ => false

/-- What one client sees of a step. -/
theorem localMove_of_step {a : Action} (hserver : ServerInv c)
    (hat : (c.clients pid).At stage (c.workOn pid)) (hstep : step uninitialized c a = some c') :
    ∃ after, LocalMove (c.clients pid) stage (c.workOn pid) (a.isClient pid) (c'.clients pid) after
        (c'.workOn pid) (observe pid c a) ∧
      (c'.clients pid).At after (c'.workOn pid) := by
  cases move_of_step hstep with
  | ignored => exact ⟨stage, .other, hat⟩
  | @add context message req hidle _ _ hroom =>
      have hadd : RequestCycle.step uninitialized c (.server (.add req)) =
          some { c with server := { c.server with handler := .addSearch req 0 } } := by
        simp [RequestCycle.step, ClientBankHandoff.step, hidle, hroom]
      exact RequestCycle.localStep_of_step hserver hat hadd
  | @remove context message slot hidle =>
      have hremove : RequestCycle.step uninitialized c (.server (.remove message.senderId)) =
          some { c with server := { c.server with handler := .removeSearch message.senderId 0 } } := by
        simp [RequestCycle.step, ClientBankHandoff.step, hidle]
      exact RequestCycle.localStep_of_step hserver hat hremove
  | @handler throws ws pc hhandler =>
      have hstep' : RequestCycle.step uninitialized c (.server (.handler throws)) =
          some { c with server := { c.server with workspace := ws, handler := pc } } := by
        simp [RequestCycle.step, ClientBankHandoff.step, hhandler]
      exact RequestCycle.localStep_of_step hserver hat hstep'
  | dispatcher hdispatcher => exact RequestCycle.localStep_of_step hserver hat hdispatcher
  | stop =>
      have hstop : RequestCycle.step uninitialized c (.server .stop) =
          some { c with server := { c.server with running := false } } := rfl
      exact RequestCycle.localStep_of_step hserver hat hstop
  | client hclient => exact RequestCycle.localStep_of_step hserver hat hclient
  | interrupt hinterrupt => exact RequestCycle.localStep_of_step hserver hat hinterrupt

end TransposeServer

namespace Deployment

open RequestCycle (MainPc Stage)
open TransposeClient (ClientBuffers)

variable {cfg : Config} {s t : State} {pid : UInt32}

theorem exists_stage (h : (machine cfg).Reachable s) (pid : UInt32) :
    ∃ stage, (s.cycle.clients pid).At stage (s.cycle.workOn pid) := by
  obtain ⟨c, acts, hinit, hrun⟩ := cycle_reachable h
  obtain ⟨stage, hat, -⟩ := TransposeServer.clientInv_of_exec hinit hrun pid
  exact ⟨stage, hat⟩

/-! ## What the others leave alone -/

/-- The client whose `main` makes the step. -/
def Action.caller : Action → Option UInt32
  | .construct pid _ _ _ | .main pid => some pid
  | _ => none

structure SameClient (pid : UInt32) (s t : State) : Prop where
  main : (t.cycle.clients pid).main = (s.cycle.clients pid).main
  bounds : (t.cycle.clients pid).k = (s.cycle.clients pid).k ∧
    (t.cycle.clients pid).requestRepetitions = (s.cycle.clients pid).requestRepetitions
  phase : t.phase pid = s.phase pid
  buffers : t.buffers pid = s.buffers pid

theorem sameClient_of_cycle {a : TransposeServer.Action} {cycle : RequestCycle.State}
    (h : (machine cfg).Reachable s) (ha : a.isClient pid = false)
    (hstep : TransposeServer.step cfg.uninitialized s.cycle a = some cycle) (t : State)
    (ht : t.cycle = cycle) (hphase : t.phase pid = s.phase pid)
    (hbuffers : t.buffers pid = s.buffers pid) : SameClient pid s t := by
  obtain ⟨stage, hat⟩ := exists_stage h pid
  obtain ⟨after, hmove, -⟩ :=
    TransposeServer.localMove_of_step (serverInv_of_reachable h) hat hstep
  rw [ha, ← ht] at hmove
  exact ⟨hmove.main_eq, hmove.bounds, hphase, hbuffers⟩

theorem sameClient_of_step {a : Action} (h : (machine cfg).Reachable s)
    (ha : a.caller ≠ some pid) (hstep : step cfg s a = some t) : SameClient pid s t := by
  have hne : ∀ {p}, a.caller = some p → pid ≠ p := by
    rintro p hp rfl
    exact ha hp
  cases move_of_step hstep with
  | giveUp | subscribe | begin | finish | unsubscribe | verify =>
      exact ⟨rfl, ⟨rfl, rfl⟩, setPhase_phase_of_ne _ (hne rfl) _, rfl⟩
  | construct =>
      exact ⟨rfl, ⟨rfl, rfl⟩, setPhase_phase_of_ne _ (hne rfl) _,
        Function.update_of_ne (hne rfl) _ _⟩
  | sleep | receive | send | start | worker => exact ⟨rfl, ⟨rfl, rfl⟩, rfl, rfl⟩
  | @client p _ _ hclient =>
      have hp : (TransposeServer.Action.client p).isClient pid = false :=
        beq_eq_false_iff_ne.mpr (hne rfl).symm
      exact sameClient_of_cycle h hp hclient _ rfl rfl rfl
  | interrupt hcycle | message _ _ hcycle | handler _ hcycle | added _ hcycle
  | join _ _ _ hcycle | dispatcher _ hcycle | stop hcycle =>
      exact sameClient_of_cycle h rfl hcycle _ rfl rfl rfl

/-! ## The phases -/

/-- Where the client's loops stand in a phase, and whether it has its buffers. -/
def PhaseFacts (main : MainPc) (built : Bool) : Phase → Prop
  | .construct => main = .loop 0 0 ∧ built = false
  | .subscribe | .awaitResponse => main = .loop 0 0 ∧ built = true
  | .requests => built = true
  | .unsubscribe | .verify => main = .done ∧ built = true
  | .exited _ => main = .loop 0 0 ∧ built = false ∨ main = .done ∧ built = true

structure ClientFacts (cfg : Config) (s : State) (pid : UInt32) : Prop where
  k : (s.cycle.clients pid).k = (cfg.arguments pid).k
  requestRepetitions :
    (s.cycle.clients pid).requestRepetitions = (cfg.arguments pid).requestRepetitions
  main : (s.cycle.clients pid).main.Within (s.cycle.clients pid).k
    (s.cycle.clients pid).requestRepetitions
  phase : PhaseFacts (s.cycle.clients pid).main (s.buffers pid).isSome (s.phase pid)
  buffers : ∀ buffers, s.buffers pid = some buffers → pid ≠ 0 ∧
    ∃ fails, TransposeClient.constructBuffers fails pid (cfg.arguments pid).m (cfg.arguments pid).n
      (cfg.arguments pid).k = some buffers

theorem ClientFacts.of_same (h : ClientFacts cfg s pid) (hsame : SameClient pid s t) :
    ClientFacts cfg t pid where
  k := hsame.bounds.1.trans h.k
  requestRepetitions := hsame.bounds.2.trans h.requestRepetitions
  main := by
    rw [hsame.main, hsame.bounds.1, hsame.bounds.2]
    exact h.main
  phase := by
    rw [hsame.main, hsame.buffers, hsame.phase]
    exact h.phase
  buffers := by
    rw [hsame.buffers]
    exact h.buffers

theorem ClientFacts.setPhase (h : ClientFacts cfg s pid) {phase : Phase}
    (hcycle : t.cycle = s.cycle) (hbuffers : t.buffers = s.buffers)
    (hphase : t.phase pid = phase)
    (hfacts : PhaseFacts (s.cycle.clients pid).main (s.buffers pid).isSome phase) :
    ClientFacts cfg t pid where
  k := hcycle ▸ h.k
  requestRepetitions := hcycle ▸ h.requestRepetitions
  main := hcycle ▸ h.main
  phase := by
    rw [hcycle, hbuffers, hphase]
    exact hfacts
  buffers := hbuffers ▸ h.buffers

theorem constructed_eq_some {throws : Bool} {fails : TransposeClient.BufferVector → UInt32 → Bool}
    {dist : UInt32 → Nat → UInt64} {buffers : ClientBuffers} {memory : Memory}
    (h : constructed cfg s pid throws fails dist = some (buffers, memory)) :
    TransposeClient.constructBuffers fails pid (cfg.arguments pid).m (cfg.arguments pid).n
        (cfg.arguments pid).k = some buffers ∧
      memory = TransposeClient.fillBuffers cfg.rawPointer dist buffers (cfg.arguments pid).k
        s.memory := by
  unfold constructed at h
  split at h
  case isTrue => cases h
  case isFalse =>
    obtain ⟨buffers', hbuffers, heq⟩ := Option.map_eq_some_iff.mp h
    cases heq
    exact ⟨hbuffers, rfl⟩

theorem clientFacts_caller {a : Action} (h : (machine cfg).Reachable s)
    (hfacts : ClientFacts cfg s pid) (ha : a.caller = some pid) (hstep : step cfg s a = some t) :
    ClientFacts cfg t pid := by
  have hphaseFacts := hfacts.phase
  cases move_of_step hstep with
  | giveUp hphase =>
      cases ha
      rw [hphase] at hphaseFacts
      exact hfacts.setPhase rfl rfl (setPhase_phase_self _ _ _) (Or.inl hphaseFacts)
  | @construct _ _ fails _ buffers _ hphase hpid hsome =>
      cases ha
      rw [hphase] at hphaseFacts
      refine ⟨hfacts.k, hfacts.requestRepetitions, hfacts.main, ?_, ?_⟩
      · simp only [Function.update_self]
        exact ⟨hphaseFacts.1, rfl⟩
      · intro buffers' hbuffers'
        simp only [Function.update_self] at hbuffers'
        cases hbuffers'
        exact ⟨hpid, fails, (constructed_eq_some hsome).1⟩
  | subscribe hphase =>
      cases ha
      rw [hphase] at hphaseFacts
      exact hfacts.setPhase rfl rfl (setPhase_phase_self _ _ _) hphaseFacts
  | sleep => exact hfacts
  | begin hphase =>
      cases ha
      rw [hphase] at hphaseFacts
      exact hfacts.setPhase rfl rfl (setPhase_phase_self _ _ _) hphaseFacts.2
  | @client p cycle hphase hclient =>
      cases ha
      obtain ⟨stage, hat⟩ := exists_stage h pid
      obtain ⟨after, hmove, -⟩ :=
        TransposeServer.localMove_of_step (serverInv_of_reachable h) hat hclient
      have hbounds := hmove.bounds
      refine ⟨hbounds.1.trans hfacts.k, hbounds.2.trans hfacts.requestRepetitions, ?_, ?_,
        hfacts.buffers⟩
      · rw [hbounds.1, hbounds.2]
        exact hmove.within hfacts.main
      · rw [hphase] at hphaseFacts ⊢
        exact hphaseFacts
  | finish hphase hdone =>
      cases ha
      rw [hphase] at hphaseFacts
      exact hfacts.setPhase rfl rfl (setPhase_phase_self _ _ _) ⟨hdone, hphaseFacts⟩
  | unsubscribe hphase =>
      cases ha
      rw [hphase] at hphaseFacts
      exact hfacts.setPhase rfl rfl (setPhase_phase_self _ _ _) hphaseFacts
  | verify hphase =>
      cases ha
      rw [hphase] at hphaseFacts
      exact hfacts.setPhase rfl rfl (setPhase_phase_self _ _ _) (Or.inr hphaseFacts)
  | interrupt | receive | message | handler | added | send | start | join | dispatcher | worker
  | stop => cases ha

theorem clientFacts_of_reachable (h : (machine cfg).Reachable s) (pid : UInt32) :
    ClientFacts cfg s pid := by
  have hinit : ∀ s, (machine cfg).init s → ClientFacts cfg s pid := by
    rintro s ⟨memory, rfl⟩
    exact ⟨rfl, rfl, trivial, ⟨rfl, rfl⟩, fun buffers hbuffers => by cases hbuffers⟩
  have hkeep : ∀ s a t, (machine cfg).Reachable s → ClientFacts cfg s pid →
      step cfg s a = some t → ClientFacts cfg t pid := by
    intro s a t hs hfacts hstep
    by_cases ha : a.caller = some pid
    · exact clientFacts_caller hs hfacts ha hstep
    · exact hfacts.of_same (sameClient_of_step hs ha hstep)
  exact h.induction hinit hkeep

/-! ## What the phases say -/

theorem ClientFacts.built_of_requests (h : ClientFacts cfg s pid)
    (hphase : s.phase pid = .requests) : ∃ buffers, s.buffers pid = some buffers := by
  have hfacts := h.phase
  rw [hphase] at hfacts
  exact Option.isSome_iff_exists.mp hfacts

/-- A client with a request is in its loops. -/
theorem ClientFacts.requests_of_main (h : ClientFacts cfg s pid)
    (hstart : (s.cycle.clients pid).main ≠ .loop 0 0)
    (hdone : (s.cycle.clients pid).main ≠ .done) : s.phase pid = .requests := by
  have hfacts := h.phase
  cases hphase : s.phase pid with
  | requests => rfl
  | construct | subscribe | awaitResponse =>
      rw [hphase] at hfacts
      exact absurd hfacts.1 hstart
  | unsubscribe | verify =>
      rw [hphase] at hfacts
      exact absurd hfacts.1 hdone
  | exited status =>
      rw [hphase] at hfacts
      rcases hfacts with ⟨hmain, -⟩ | ⟨hmain, -⟩
      · exact absurd hmain hstart
      · exact absurd hmain hdone

end Deployment

end MatrixTransposer
