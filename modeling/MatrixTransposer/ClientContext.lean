import MatrixTransposer.SharedMatrixBuffer
import MatrixTransposer.Transpose

/-!
# `ClientContext` and its construction by `AddClient`

`AddClient` builds the context of a new client in the slot where it will stay. The statements of its
`try` block are a list, so that the block can stop with an exception after any of them, and so that
another thread can see the slot between any two of them.
-/

namespace MatrixTransposer

abbrev maxClients : Nat := 64
def reqQueueCapacity : UInt64 := 16
def transposeTileSize : UInt32 := 64
def matrixBufNameSuffix : String := ""
def trMatrixBufNameSuffix : String := "_tr"
def reqQueueNameSuffix : String := "_req"

theorem maxClients_pos : 0 < maxClients := by decide

structure BufferDimensions where
  m : UInt32
  n : UInt32
  k : UInt32
  numRows : UInt32
  numColumns : UInt32
  deriving DecidableEq

/-- Times are in nanoseconds, whatever the members are called. -/
structure ClientStats where
  startTime : UInt64
  totalElapsedTimeUs : UInt64
  totalRequests : UInt64
  deriving DecidableEq

namespace ClientStats

def startTimer (stats : ClientStats) (now : UInt64) : ClientStats := { stats with startTime := now }

def stopTimer (stats : ClientStats) (now : UInt64) : ClientStats :=
  { stats with
    totalRequests := stats.totalRequests + 1
    totalElapsedTimeUs := stats.totalElapsedTimeUs + (now - stats.startTime) }

def getAverageElapsedTimeUs (stats : ClientStats) : UInt64 :=
  if stats.totalRequests = 0 then 0 else stats.totalElapsedTimeUs / stats.totalRequests

end ClientStats

structure UnixSockIpcContext where
  socket : Nat
  deriving DecidableEq

/-- A queue or a futex as its process holds it: which shared object it is attached to. -/
structure SharedObject where
  ownerPid : UInt32
  nameSuffix : String
  deriving DecidableEq

structure ClientContext where
  subscribed : Bool
  id : UInt32
  matrixSize : BufferDimensions
  stats : ClientStats
  ipcContext : UnixSockIpcContext
  matrixBuffers : List SharedMatrixBuffer
  matrixBuffersTr : List SharedMatrixBuffer
  pRequestQueue : Option SharedObject
  pTransposeReadyFutex : Option SharedObject
  deriving DecidableEq

/-- `ClientContext()`, which is also what the slots of the bank start as: value-initialisation
clears the members that have no initialiser. -/
def ClientContext.new : ClientContext where
  subscribed := false
  id := 0
  matrixSize := { m := 0, n := 0, k := 0, numRows := 0, numColumns := 0 }
  stats := { startTime := 0, totalElapsedTimeUs := 0, totalRequests := 0 }
  ipcContext := { socket := 0 }
  matrixBuffers := []
  matrixBuffersTr := []
  pRequestQueue := none
  pTransposeReadyFutex := none

structure SubscribeRequest where
  clientId : UInt32
  m : UInt32
  n : UInt32
  k : UInt32
  context : UnixSockIpcContext
  deriving DecidableEq

/-- The statements of the `try` block. -/
inductive BuildStep where
  | setId
  | setM
  | setN
  | setK
  | setNumRows
  | setNumColumns
  | setIpcContext
  | reserveMatrixBuffers
  | reserveMatrixBuffersTr
  | makeFutex
  | makeQueue
  | pushMatrixBuffer (bufferIndex : UInt32)
  | pushMatrixBufferTr (bufferIndex : UInt32)
  | setSubscribed
  deriving DecidableEq

def buildSteps (k : UInt32) : List BuildStep :=
  [.setId, .setM, .setN, .setK, .setNumRows, .setNumColumns, .setIpcContext, .reserveMatrixBuffers,
      .reserveMatrixBuffersTr, .makeFutex, .makeQueue] ++
    (upTo 0 k).flatMap (fun bufferIndex =>
      [.pushMatrixBuffer bufferIndex, .pushMatrixBufferTr bufferIndex]) ++
    [.setSubscribed]

/-- A statement of the `try` block, or `none` when it throws. Only those that allocate or construct
something can; `fails` says that the environment makes them. -/
def BuildStep.run (req : SubscribeRequest) (fails : Bool) (ctx : ClientContext) :
    BuildStep → Option ClientContext
  | .setId => some { ctx with id := req.clientId }
  | .setM => some { ctx with matrixSize := { ctx.matrixSize with m := req.m } }
  | .setN => some { ctx with matrixSize := { ctx.matrixSize with n := req.n } }
  | .setK => some { ctx with matrixSize := { ctx.matrixSize with k := req.k } }
  | .setNumRows => some { ctx with matrixSize := { ctx.matrixSize with numRows := 1 <<< req.m } }
  | .setNumColumns =>
      some { ctx with matrixSize := { ctx.matrixSize with numColumns := 1 <<< req.n } }
  | .setIpcContext => some { ctx with ipcContext := req.context }
  | .reserveMatrixBuffers | .reserveMatrixBuffersTr => if fails then none else some ctx
  | .makeFutex =>
      if fails then none
      else some { ctx with
        pTransposeReadyFutex := some { ownerPid := req.clientId, nameSuffix := "" } }
  | .makeQueue =>
      if fails then none
      else some { ctx with
        pRequestQueue := some { ownerPid := req.clientId, nameSuffix := reqQueueNameSuffix } }
  | .pushMatrixBuffer bufferIndex =>
      (SharedMatrixBuffer.construct fails req.clientId req.m req.n bufferIndex
        matrixBufNameSuffix).map fun buffer =>
          { ctx with matrixBuffers := ctx.matrixBuffers ++ [buffer] }
  | .pushMatrixBufferTr bufferIndex =>
      (SharedMatrixBuffer.construct fails req.clientId req.m req.n bufferIndex
        trMatrixBufNameSuffix).map fun buffer =>
          { ctx with matrixBuffersTr := ctx.matrixBuffersTr ++ [buffer] }
  | .setSubscribed => some { ctx with subscribed := true }

/-- The `try` block from some statement on: the context it leaves, and whether it was left without
an exception. -/
def runBuild (req : SubscribeRequest) (fails : BuildStep → Bool) :
    List BuildStep → ClientContext → ClientContext × Bool
  | [], ctx => (ctx, true)
  | s :: steps, ctx =>
      match s.run req (fails s) ctx with
      | none => (ctx, false)
      | some ctx' => runBuild req fails steps ctx'

/-- The context after statements none of which threw. -/
def progress (req : SubscribeRequest) (steps : List BuildStep) (ctx : ClientContext) :
    Option ClientContext :=
  steps.foldlM (fun ctx s => s.run req false ctx) ctx

/-- A context that a whole `try` block has built, apart from what serving its client has put into
its statistics since. -/
structure ClientContext.Complete (req : SubscribeRequest) (ctx : ClientContext) : Prop where
  subscribed : ctx.subscribed = true
  id : ctx.id = req.clientId
  matrixSize : ctx.matrixSize =
    { m := req.m, n := req.n, k := req.k, numRows := 1 <<< req.m, numColumns := 1 <<< req.n }
  ipcContext : ctx.ipcContext = req.context
  matrixBuffers : ctx.matrixBuffers.map some = (upTo 0 req.k).map fun bufferIndex =>
    SharedMatrixBuffer.construct false req.clientId req.m req.n bufferIndex matrixBufNameSuffix
  matrixBuffersTr : ctx.matrixBuffersTr.map some = (upTo 0 req.k).map fun bufferIndex =>
    SharedMatrixBuffer.construct false req.clientId req.m req.n bufferIndex trMatrixBufNameSuffix
  pRequestQueue : ctx.pRequestQueue =
    some { ownerPid := req.clientId, nameSuffix := reqQueueNameSuffix }
  pTransposeReadyFutex : ctx.pTransposeReadyFutex =
    some { ownerPid := req.clientId, nameSuffix := "" }

/-! ## What the block builds -/

variable {req : SubscribeRequest} {fails : BuildStep → Bool} {steps : List BuildStep}
  {ctx ctx' : ClientContext}

/-- The environment can make a statement throw, but not make it do something else. -/
theorem BuildStep.run_of_fails {s : BuildStep} {b : Bool} (h : s.run req b ctx = some ctx') :
    s.run req false ctx = some ctx' := by
  cases b with
  | false => exact h
  | true =>
      -- a statement that can throw has not run to its end
      cases s <;> first | exact h | cases h

theorem progress_of_runBuild (h : runBuild req fails steps ctx = (ctx', true)) :
    progress req steps ctx = some ctx' := by
  induction steps generalizing ctx with
  | nil =>
      cases h
      rfl
  | cons s steps ih =>
      rw [runBuild] at h
      split at h
      case h_1 => cases h
      case h_2 next hrun =>
        rw [progress, List.foldlM_cons, BuildStep.run_of_fails hrun]
        exact ih h

theorem progress_append {before after : List BuildStep} :
    progress req (before ++ after) ctx =
      (progress req before ctx).bind fun ctx => progress req after ctx :=
  List.foldlM_append

theorem progress_cons {s : BuildStep} :
    progress req (s :: steps) ctx =
      (s.run req false ctx).bind fun ctx => progress req steps ctx :=
  List.foldlM_cons

theorem progress_concat {s : BuildStep} (h : progress req steps ctx = some ctx') :
    progress req (steps ++ [s]) ctx = s.run req false ctx' := by
  rw [progress_append, h, Option.bind_some, progress_cons]
  exact Option.bind_fun_some _

theorem progress_pushes {indices : List UInt32}
    (h : progress req (indices.flatMap fun bufferIndex =>
      [.pushMatrixBuffer bufferIndex, .pushMatrixBufferTr bufferIndex]) ctx = some ctx') :
    ∃ buffers buffersTr,
      ctx' = { ctx with
        matrixBuffers := ctx.matrixBuffers ++ buffers
        matrixBuffersTr := ctx.matrixBuffersTr ++ buffersTr } ∧
      buffers.map some = indices.map (fun bufferIndex =>
        SharedMatrixBuffer.construct false req.clientId req.m req.n bufferIndex
          matrixBufNameSuffix) ∧
      buffersTr.map some = indices.map (fun bufferIndex =>
        SharedMatrixBuffer.construct false req.clientId req.m req.n bufferIndex
          trMatrixBufNameSuffix) := by
  induction indices generalizing ctx with
  | nil =>
      cases h
      exact ⟨[], [], by simp, rfl, rfl⟩
  | cons bufferIndex indices ih =>
      rw [List.flatMap_cons, progress_append] at h
      obtain ⟨mid, hmid, hrest⟩ := Option.bind_eq_some_iff.mp h
      rw [progress_cons] at hmid
      obtain ⟨first, hfirst, hmid⟩ := Option.bind_eq_some_iff.mp hmid
      rw [progress_cons] at hmid
      obtain ⟨second, hsecond, hmid⟩ := Option.bind_eq_some_iff.mp hmid
      cases hmid
      obtain ⟨buffer, hbuffer, rfl⟩ := Option.map_eq_some_iff.mp hfirst
      obtain ⟨bufferTr, hbufferTr, rfl⟩ := Option.map_eq_some_iff.mp hsecond
      obtain ⟨buffers, buffersTr, rfl, hbuffers, hbuffersTr⟩ := ih hrest
      refine ⟨buffer :: buffers, bufferTr :: buffersTr, by simp, ?_, ?_⟩
      · rw [List.map_cons, List.map_cons, hbuffers, hbuffer]
      · rw [List.map_cons, List.map_cons, hbuffersTr, hbufferTr]

theorem complete_of_progress (h : progress req (buildSteps req.k) ClientContext.new = some ctx) :
    ctx.Complete req := by
  rw [buildSteps, progress_append, progress_append] at h
  obtain ⟨mid, hmid, hlast⟩ := Option.bind_eq_some_iff.mp h
  obtain ⟨first, hfirst, hpushes⟩ := Option.bind_eq_some_iff.mp hmid
  obtain ⟨buffers, buffersTr, rfl, hbuffers, hbuffersTr⟩ := progress_pushes hpushes
  cases hfirst
  cases hlast
  exact
    { subscribed := rfl
      id := rfl
      matrixSize := rfl
      ipcContext := rfl
      matrixBuffers := hbuffers
      matrixBuffersTr := hbuffersTr
      pRequestQueue := rfl
      pTransposeReadyFutex := rfl }

end MatrixTransposer
