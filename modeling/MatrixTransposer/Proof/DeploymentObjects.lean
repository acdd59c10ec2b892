import MatrixTransposer.DeploymentObjects
import MatrixTransposer.Proof.DeploymentSubscription
import MatrixTransposer.Proof.SharedMemoryConstruct
import MatrixTransposer.Proof.ShmObjectNames

/-!
# Whose objects the server maps

The server opens the objects of a client by their names, and never says that they have to exist. It
finds them all the same: it opens them only while it handles the client's subscription, and until
then the client sleeps and its names are there. So the server maps the very objects that the client
has made, and makes none itself; and what is left of a client once it is gone has no name.
-/

namespace MatrixTransposer

open SharedMemoryObjects (Extends)

/-! ## What a context holds open -/

theorem ClientContext.mem_objects {ctx : ClientContext} {object : ClientObject} :
    object ∈ ctx.objects ↔
      (ctx.pTransposeReadyFutex.isSome = true ∧ object = .transposeReadyFutex) ∨
      (ctx.pRequestQueue.isSome = true ∧ object = .requestQueue) ∨
      (∃ buffer ∈ ctx.matrixBuffers,
        object = .matrixBuffer .matrixBuffers buffer.bufferIndex) ∨
      ∃ buffer ∈ ctx.matrixBuffersTr,
        object = .matrixBuffer .matrixBuffersTr buffer.bufferIndex := by
  simp only [ClientContext.objects, List.mem_append, List.mem_map, Option.mem_toList,
    exists_and_right, Option.isSome_iff_exists, or_assoc, eq_comm (a := object)]

/-- A statement adds the object that it opens, if it opens one. -/
theorem BuildStep.mem_objects_run {req : SubscribeRequest} {fails : Bool}
    {ctx ctx' : ClientContext} {step : BuildStep} (h : step.run req fails ctx = some ctx')
    {object : ClientObject} :
    object ∈ ctx'.objects ↔ object ∈ ctx.objects ∨ step.opens = some object := by
  have h := BuildStep.run_of_fails h
  rw [ClientContext.mem_objects, ClientContext.mem_objects]
  cases step with
  | pushMatrixBuffer bufferIndex | pushMatrixBufferTr bufferIndex =>
      obtain ⟨buffer, hbuffer, rfl⟩ := Option.map_eq_some_iff.mp h
      obtain ⟨-, -, -, -, hindex, -⟩ := SharedMatrixBuffer.construct_eq_some hbuffer
      grind [BuildStep.opens]
  | _ =>
      cases h
      grind [BuildStep.opens]

theorem mem_opened {k : UInt32} {object : ClientObject} :
    object ∈ (buildSteps k).filterMap BuildStep.opens ↔
      object = .transposeReadyFutex ∨ object = .requestQueue ∨
        (∃ bufferIndex ∈ upTo 0 k, object = .matrixBuffer .matrixBuffers bufferIndex) ∨
        ∃ bufferIndex ∈ upTo 0 k, object = .matrixBuffer .matrixBuffersTr bufferIndex := by
  simp only [List.mem_filterMap, buildSteps, List.mem_append, List.mem_flatMap, List.mem_cons,
    List.not_mem_nil, or_false, or_and_right, exists_or, exists_eq_left, BuildStep.opens, reduceCtorEq, false_or, Option.some.injEq, eq_comm (a := object)]
  grind [BuildStep.opens]

theorem bufferIndices_of_constructed {clientPid m n : UInt32} {indices : List UInt32}
    {buffers : List SharedMatrixBuffer} {nameSuffix : String}
    (h : buffers.map some = indices.map fun bufferIndex =>
      SharedMatrixBuffer.construct false clientPid m n bufferIndex nameSuffix) :
    buffers.map SharedMatrixBuffer.bufferIndex = indices := by
  apply List.map_injective_iff.mpr (Option.some_injective _)
  calc
    (buffers.map SharedMatrixBuffer.bufferIndex).map some =
        (buffers.map some).map (Option.map SharedMatrixBuffer.bufferIndex) := by
      rw [List.map_map, List.map_map]
      rfl
    _ = indices.map fun bufferIndex =>
          (SharedMatrixBuffer.construct false clientPid m n bufferIndex nameSuffix).map
            SharedMatrixBuffer.bufferIndex := by
      rw [h, List.map_map]
      rfl
    _ = indices.map some := by
      apply List.map_congr_left
      intro bufferIndex hindex
      have hmem := List.mem_map_of_mem (f := fun bufferIndex =>
        SharedMatrixBuffer.construct false clientPid m n bufferIndex nameSuffix) hindex
      rw [← h] at hmem
      obtain ⟨buffer, -, hbuffer⟩ := List.mem_map.mp hmem
      obtain ⟨-, -, -, -, heq, -⟩ := SharedMatrixBuffer.construct_eq_some hbuffer.symm
      rw [← hbuffer, Option.map_some, heq]

/-- A context that is complete holds open what the whole block opens. -/
theorem ClientContext.Complete.mem_objects {req : SubscribeRequest} {ctx : ClientContext}
    (h : ctx.Complete req) {object : ClientObject} :
    object ∈ ctx.objects ↔ object ∈ (buildSteps req.k).filterMap BuildStep.opens := by
  have hpushed : ∀ {buffers : List SharedMatrixBuffer} {vector : TransposeClient.BufferVector},
      buffers.map SharedMatrixBuffer.bufferIndex = upTo 0 req.k →
      ((∃ buffer ∈ buffers, object = .matrixBuffer vector buffer.bufferIndex) ↔
        ∃ bufferIndex ∈ upTo 0 req.k, object = .matrixBuffer vector bufferIndex) := by
    intro buffers vector hbuffers
    rw [← hbuffers]
    simp only [List.mem_map, exists_exists_and_eq_and]
  rw [ClientContext.mem_objects, mem_opened, h.pRequestQueue, h.pTransposeReadyFutex,
    hpushed (bufferIndices_of_constructed h.matrixBuffers),
    hpushed (bufferIndices_of_constructed h.matrixBuffersTr)]
  simp only [Option.isSome_some, true_and]

/-- The context is as `ClientContext()` leaves it until the id is set. -/
theorem id_of_buildSteps {req : SubscribeRequest} {before steps : List BuildStep}
    {ctx : ClientContext} (hsteps : before ++ steps = buildSteps req.k)
    (h : progress req before ClientContext.new = some ctx) :
    before = [] ∧ ctx = ClientContext.new ∨ ctx.id = req.clientId := by
  cases before with
  | nil =>
      cases h
      exact Or.inl ⟨rfl, rfl⟩
  | cons first before =>
      obtain ⟨rfl, -⟩ := List.cons.inj hsteps
      rw [progress_cons] at h
      obtain ⟨named, hnamed, hrest⟩ := Option.bind_eq_some_iff.mp h
      cases hnamed
      exact Or.inr ((id_progress hrest).elim id id)

/-- Nothing is open before the id is set. -/
theorem id_of_mem_objects {req : SubscribeRequest} {before steps : List BuildStep}
    {ctx : ClientContext} {object : ClientObject} (hsteps : before ++ steps = buildSteps req.k)
    (h : progress req before ClientContext.new = some ctx) (hobject : object ∈ ctx.objects) :
    ctx.id = req.clientId := by
  rcases id_of_buildSteps hsteps h with ⟨-, rfl⟩ | hid
  · cases hobject
  · exact hid

namespace DeploymentObjects

open Deployment (Config Subscribing Unhandled)
open ClientBankHandoff (HandlerPc InUse SlotFacts)
open Lib
open SharedMemoryObjects (Faults Kernel)
open TransposeServer (adding)

theorem mem_constructions_of_opens {k : UInt32} {step : BuildStep} {object : ClientObject}
    (hstep : step ∈ buildSteps k) (hopens : step.opens = some object) :
    object ∈ constructions k := by
  have hmem := mem_opened.mp (List.mem_filterMap.mpr ⟨step, hstep, hopens⟩)
  simp only [constructions, TransposeClient.pushes, List.map_flatMap, List.mem_cons,
    List.mem_flatMap, List.map_cons, List.map_nil, List.not_mem_nil, or_false]
  rcases hmem with rfl | rfl | ⟨bufferIndex, hindex, rfl⟩ | ⟨bufferIndex, hindex, rfl⟩
  · exact Or.inl rfl
  · exact Or.inr (Or.inl rfl)
  · exact Or.inr (Or.inr ⟨bufferIndex, hindex, Or.inl rfl⟩)
  · exact Or.inr (Or.inr ⟨bufferIndex, hindex, Or.inr (Or.inl rfl)⟩)

end DeploymentObjects

end MatrixTransposer
