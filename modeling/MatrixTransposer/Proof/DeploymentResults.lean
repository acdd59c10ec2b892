import MatrixTransposer.Proof.DeploymentRefinement
import MatrixTransposer.Proof.RequestProgress

/-!
# What the clients get

The results that the clients verify, and whose words the steps touch.
-/

namespace MatrixTransposer

open Lib

/-! ## The verification by itself -/

namespace TransposeClient

variable {fails : BufferVector → UInt32 → Bool} {clientPid m n k : UInt32}
  {buffers : ClientBuffers}

/-- The verification of results that are all as they should be. -/
theorem verify_of_same (h : constructBuffers fails clientPid m n k = some buffers)
    (mappings : Mappings buffers) {mem : Memory}
    (hsame : ∀ b < k, ¬ Differs mappings m n mem b) :
    ∃ v, verify mappings.rawPointer clientPid m n buffers k mem = some v ∧ v.output = [] ∧
      v.status = 0 := by
  have hstart : Verified mappings m n mem [] { mem := mem, output := [], errorFound := false } :=
    ⟨fun _ _ _ _ _ _ => rfl, by simp, by simp⟩
  obtain ⟨v, hrun, hverified⟩ := hstart.run h fun b (hb : b ∈ upTo 0 k) => (mem_upTo.mp hb).2
  have hclean : ¬ v.errorFound = true := by
    rw [hverified.errorFound]
    rintro ⟨b, hb, hdiffers⟩
    exact hsame b (mem_upTo.mp hb).2 hdiffers
  refine ⟨v, hrun, ?_, ?_⟩
  · by_contra houtput
    exact hclean (hverified.output.mp houtput)
  · rw [Verification.status, if_neg hclean]

end TransposeClient

namespace Deployment

open TransposeClient (BufferVector ClientBuffers Mappings Verification)
open scoped Matrix

variable {cfg : Config} {s t : State} {pid b : UInt32}

theorem represents_of_reachable (hsuited : cfg.Suited) (h : (machine cfg).Reachable s) :
    ∃ σ, (service cfg).Reachable σ ∧ Represents cfg s σ := by
  refine h.induction (I := fun s => ∃ σ, (service cfg).Reachable σ ∧ Represents cfg s σ) ?_ ?_
  · rintro s ⟨memory, rfl⟩
    obtain ⟨σ, hσ, hstart⟩ := represents_initial cfg memory
    exact ⟨σ, Machine.Reachable.of_init hσ, hstart⟩
  · rintro s a t hs ⟨σ, hσ, hrep⟩ hstep
    obtain ⟨σ', hexec, ht⟩ := represents_step hsuited hs hrep hstep
    exact ⟨σ', hσ.exec hexec, ht⟩

theorem not_serves_of_phase (h : (machine cfg).Reachable s) (hphase : s.phase pid ≠ .requests) :
    ¬ s.Serves pid b := by
  rintro ⟨slot, hjob, rfl⟩
  exact hphase (inService_of_job h hjob).phase

/-- A client that has left its loops has the transposed matrices. -/
theorem resultAt_of_done (hsuited : cfg.Suited) (h : (machine cfg).Reachable s)
    (hbuilt : (s.buffers pid).isSome = true) (hphase : s.phase pid ≠ .requests)
    (hmain : (s.cycle.clients pid).main = .done)
    (hreps : 0 < (cfg.arguments pid).requestRepetitions) (hb : b < (cfg.arguments pid).k) :
    cfg.resultAt s.memory pid b = (cfg.matrixAt s.memory pid b)ᵀ := by
  obtain ⟨σ, hσ, hrep⟩ := represents_of_reachable hsuited h
  have hpast : (s.cycle.clients pid).main.Past (cfg.arguments pid).requestRepetitions b := by
    rw [hmain]
    exact hreps
  have hanswered := hrep.answered pid b hb hpast
  calc
    cfg.resultAt s.memory pid b = σ.result pid b :=
      (hrep.result pid hbuilt b hb (not_serves_of_phase h hphase)).symm
    _ = (σ.matrix pid b)ᵀ :=
      TranspositionService.correct_of_reachable hσ pid b (Or.inl hanswered)
    _ = (cfg.matrixAt s.memory pid b)ᵀ := by rw [hrep.matrix pid hbuilt b hb]

def Config.mappings (cfg : Config) {fails : BufferVector → UInt32 → Bool} {buffers : ClientBuffers}
    (h : TransposeClient.constructBuffers fails pid (cfg.arguments pid).m (cfg.arguments pid).n
      (cfg.arguments pid).k = some buffers) : Mappings buffers where
  rawPointer := cfg.rawPointer
  apart := by
    intro v v' a ha b hb
    obtain ⟨i, -, hconstruct⟩ := TransposeClient.construct_of_mem h ha
    obtain ⟨j, -, hconstruct'⟩ := TransposeClient.construct_of_mem h hb
    exact cfg.apart a b ⟨pid, v, i, hconstruct⟩ ⟨pid, v', j, hconstruct'⟩

theorem not_differs_of_resultAt {fails : BufferVector → UInt32 → Bool} {buffers : ClientBuffers}
    (h : TransposeClient.constructBuffers fails pid (cfg.arguments pid).m (cfg.arguments pid).n
      (cfg.arguments pid).k = some buffers) {mem : Memory} (hb : b < (cfg.arguments pid).k)
    (hresult : cfg.resultAt mem pid b = (cfg.matrixAt mem pid b)ᵀ) :
    ¬ TransposeClient.Differs (cfg.mappings h) (cfg.arguments pid).m (cfg.arguments pid).n mem b := by
  obtain ⟨matrix, hget, hmatrix⟩ := TransposeClient.exists_constructed h hb .matrixBuffers
  obtain ⟨tr, hgetTr, htr⟩ := TransposeClient.exists_constructed h hb .matrixBuffersTr
  rw [TransposeClient.not_differs_iff hget hgetTr]
  intro i hi j hj
  have hentry := congrFun (congrFun hresult ⟨j, hj⟩) ⟨i, hi⟩
  simp only [Config.resultAt, Config.matrixAt, Matrix.transpose_apply, Matrix.of_apply,
    address_of_construct hmatrix, address_of_construct htr] at hentry
  exact hentry

/-- A client that has made all its requests finds nothing wrong. -/
theorem exists_verified (hsuited : cfg.Suited) (h : (machine cfg).Reachable s)
    (hreps : 0 < (cfg.arguments pid).requestRepetitions) (hphase : s.phase pid = .verify) :
    ∃ buffers v, s.buffers pid = some buffers ∧
      TransposeClient.verify cfg.rawPointer pid (cfg.arguments pid).m (cfg.arguments pid).n buffers
        (cfg.arguments pid).k s.memory = some v ∧ v.output = [] ∧ v.status = 0 := by
  have hfacts := clientFacts_of_reachable h pid
  obtain ⟨hmain, hbuilt⟩ : (s.cycle.clients pid).main = .done ∧ (s.buffers pid).isSome = true := by
    have hphaseFacts := hfacts.phase
    rwa [hphase] at hphaseFacts
  obtain ⟨buffers, hbuffers⟩ := Option.isSome_iff_exists.mp hbuilt
  obtain ⟨-, fails, hconstruct⟩ := hfacts.buffers buffers hbuffers
  obtain ⟨v, hverify, hclean⟩ := TransposeClient.verify_of_same hconstruct (cfg.mappings hconstruct)
    fun b hb => not_differs_of_resultAt hconstruct hb
      (resultAt_of_done hsuited h hbuilt (by simp [hphase]) hmain hreps hb)
  exact ⟨buffers, v, hbuffers, hverify, hclean⟩

theorem status_of_reachable (hsuited : cfg.Suited) (h : (machine cfg).Reachable s)
    (hreps : 0 < (cfg.arguments pid).requestRepetitions) {status : Nat}
    (hphase : s.phase pid = .exited status) (hbuilt : (s.buffers pid).isSome = true) :
    status = 0 := by
  let Clean (s : State) : Prop := ∀ status, s.phase pid = .exited status →
    (s.buffers pid).isSome = true → status = 0
  have hinit : ∀ s, (machine cfg).init s → Clean s := by
    rintro s ⟨memory, rfl⟩ status hstatus
    cases hstatus
  have hkeep : ∀ s a t, (machine cfg).Reachable s → Clean s → step cfg s a = some t →
      Clean t := by
    intro s a t hs hclean hstep status hstatus hbuilt
    by_cases ha : a.caller = some pid
    · cases move_of_step hstep with
      | @verify p buffers v hphase hbuffers hverify =>
          cases ha
          obtain ⟨buffers', v', hbuffers', hverify', -, hzero⟩ :=
            exists_verified hsuited hs hreps hphase
          cases hbuffers.symm.trans hbuffers'
          cases hverify.symm.trans hverify'
          simp only [Function.update_self, Phase.exited.injEq] at hstatus
          rw [← hstatus, hzero]
      | giveUp hphase =>
          cases ha
          have hbefore := (clientFacts_of_reachable hs pid).phase
          rw [hphase] at hbefore
          cases hbefore.2.symm.trans hbuilt
      | construct | subscribe | begin | finish | unsubscribe =>
          cases ha
          simp [State.setPhase, State.sendToServer] at hstatus
      | sleep => exact hclean status hstatus hbuilt
      | client => exact hclean status hstatus hbuilt
      | interrupt | receive | message | handler | added | send | start | join | dispatcher | worker
      | stop => cases ha
    · have hsame := sameClient_of_step hs ha hstep
      rw [hsame.phase] at hstatus
      rw [hsame.buffers] at hbuilt
      exact hclean status hstatus hbuilt
  exact h.induction hinit hkeep status hphase hbuilt

/-! ## The results -/

/-- **The whole refines the service.** Whatever the interleaving of any number of clients, the
server and its threads, what is seen of a run is a run of `TranspositionService`, which ends in a
state that agrees on every request and on every matrix and result except the one being written. -/
theorem refines_service (hsuited : cfg.Suited) {acts : List Action} (hinit : (machine cfg).init s)
    (hrun : (machine cfg).exec s acts = some t) :
    ∃ σ₀ σ, (service cfg).init σ₀ ∧
      (service cfg).exec σ₀ ((machine cfg).trace (observe cfg) s acts) = some σ ∧
        Represents cfg t σ := by
  obtain ⟨memory, rfl⟩ := hinit
  obtain ⟨σ₀, hσ₀, hstart⟩ := represents_initial cfg memory
  obtain ⟨σ, hexec, ht⟩ := Machine.exec_matched
    (fun _ _ _ _ hreach h hstep => represents_step hsuited hreach h hstep)
    (Machine.Reachable.of_init ⟨memory, rfl⟩) hstart hrun
  exact ⟨σ₀, σ, hσ₀, hexec, ht⟩

theorem refines_service_small :
    ∃ t σ₀ σ, (service .small).init σ₀ ∧
      (service .small).exec σ₀ ((machine .small).trace (observe .small)
        (initial .small fun _ => 0) (smallRequest ++ (smallStart ++ smallCopy))) = some σ ∧
        Represents .small t σ := by
  have hruns : ((machine .small).exec (initial .small fun _ => 0)
      (smallRequest ++ (smallStart ++ smallCopy))).isSome = true := by decide +kernel
  obtain ⟨t, hrun⟩ := Option.isSome_iff_exists.mp hruns
  exact ⟨t, refines_service suited_small ⟨_, rfl⟩ hrun⟩

end Deployment

end MatrixTransposer
