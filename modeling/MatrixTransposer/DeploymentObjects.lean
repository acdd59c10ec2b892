import MatrixTransposer.Deployment
import MatrixTransposer.ShmObjectNames
import MatrixTransposer.SharedMemoryObjects
import MatrixTransposer.SpscQueueBuffer

/-!
# The shared memory of the whole system

`Deployment` with the namespace of the kernel under it. The `try` block of a client is taken apart
into its constructors, each of which creates an object; the destructors run after `main` has
returned. `AddClient` opens the objects of the client it adds, one in each statement that constructs
something. Whether a constructor of a `SharedMemory` throws is not a decision of the environment any
more: the kernel answers.
-/

namespace MatrixTransposer

/-- The objects that a context holds open. -/
def ClientContext.objects (ctx : ClientContext) : List ClientObject :=
  (ctx.pTransposeReadyFutex.toList.map fun _ => .transposeReadyFutex) ++
    (ctx.pRequestQueue.toList.map fun _ => .requestQueue) ++
    (ctx.matrixBuffers.map fun buffer => .matrixBuffer .matrixBuffers buffer.bufferIndex) ++
    ctx.matrixBuffersTr.map fun buffer => .matrixBuffer .matrixBuffersTr buffer.bufferIndex

/-- The object that a statement of the `try` block opens. -/
def BuildStep.opens : BuildStep → Option ClientObject
  | .makeFutex => some .transposeReadyFutex
  | .makeQueue => some .requestQueue
  | .pushMatrixBuffer bufferIndex => some (.matrixBuffer .matrixBuffers bufferIndex)
  | .pushMatrixBufferTr bufferIndex => some (.matrixBuffer .matrixBuffersTr bufferIndex)
  | _ => none

namespace DeploymentObjects

open Deployment (Config)
open SharedMemoryObjects (BufferInitMode Faults Kernel)

/-- What the client's `main` constructs, in this order. -/
def constructions (k : UInt32) : List ClientObject :=
  .transposeReadyFutex :: .requestQueue ::
    (TransposeClient.pushes k).map fun (vector, bufferIndex) => .matrixBuffer vector bufferIndex

/-- The size that the constructor of the object asks for. -/
def sizeInBytes (cacheLineSize : UInt64) (m n : UInt32) : ClientObject → UInt64
  | .matrixBuffer _ _ => SharedMatrixBuffer.bufferSizeInBytes (SharedMatrixBuffer.dimension m)
      (SharedMatrixBuffer.dimension n)
  | .requestQueue => SpscQueueSeqLock.calculateBufferSize reqQueueCapacity cacheLineSize
  | .transposeReadyFutex => lineSize cacheLineSize

/-- How the client has the object filled; the matrices themselves are filled later. -/
def initMode : ClientObject → BufferInitMode
  | .matrixBuffer .matrixBuffers _ => .noInit
  | _ => .zero

structure State where
  deployment : Deployment.State
  kernel : Kernel
  /-- The objects that a client has constructed and not destroyed. -/
  client : UInt32 → ClientObject → Option Nat
  /-- The objects that the context in a slot has opened. -/
  slot : Fin maxClients → ClientObject → Option Nat

inductive Action where
  /-- The next constructor of the client's `try` block. -/
  | create (pid : UInt32) (faults : Faults)
  /-- The end of the `try` block, or something else in it that throws. -/
  | construct (pid : UInt32) (throws : Bool) (dist : UInt32 → Nat → UInt64)
  /-- A destructor that runs when the client exits. -/
  | destroy (pid : UInt32) (object : ClientObject)
  /-- `throws` is set when the statement throws before it opens anything. -/
  | handler (throws : Bool) (faults : Faults)
  | other (a : Deployment.Action)

variable (cfg : Config) (cacheLineSize : UInt64)

/-- The size of an object of the client. -/
def ownSize (pid : UInt32) : ClientObject → UInt64 :=
  sizeInBytes cacheLineSize (cfg.arguments pid).m (cfg.arguments pid).n

def State.setClient (s : State) (pid : UInt32) (object : ClientObject) (id : Option Nat) : State :=
  { s with client := Function.update s.client pid (Function.update (s.client pid) object id) }

def State.setSlot (s : State) (slot : Fin maxClients) (object : ClientObject) (id : Nat) : State :=
  { s with slot := Function.update s.slot slot (Function.update (s.slot slot) object (some id)) }

/-- `none` when there is nothing left to construct. -/
def createStep (s : State) (pid : UInt32) (faults : Faults) : Option State :=
  if s.deployment.phase pid = .construct ∧ pid ≠ 0 ∧
      Deployment.Arguments.Defined (cfg.arguments pid) then
    ((constructions (cfg.arguments pid).k).find? fun object =>
      (s.client pid object).isNone).bind fun object =>
        match SharedMemoryObjects.construct s.kernel (ownSize cfg cacheLineSize pid object)
          (object.shmObjectName pid) .owner (initMode object) faults with
        | (kernel, .ok id) => some ({ s with kernel := kernel }.setClient pid object (some id))
        | (kernel, .error _) =>
            (Deployment.step cfg s.deployment (.construct pid true (fun _ _ => false)
              fun _ _ => 0)).map fun deployment =>
                { s with deployment := deployment, kernel := kernel }
  else none

def constructStep (s : State) (pid : UInt32) (throws : Bool) (dist : UInt32 → Nat → UInt64) :
    Option State :=
  if throws || (constructions (cfg.arguments pid).k).all fun object =>
      (s.client pid object).isSome then
    (Deployment.step cfg s.deployment (.construct pid throws (fun _ _ => false) dist)).map
      fun deployment => { s with deployment := deployment }
  else none

def exited : Deployment.Phase → Bool
  | .exited _ => true
  | _ => false

def destroyStep (s : State) (pid : UInt32) (object : ClientObject) : Option State :=
  if exited (s.deployment.phase pid) then
    (s.client pid object).map fun id =>
      { s with
        kernel := SharedMemoryObjects.destroy s.kernel
          { name := object.shmObjectName pid
            sizeInBytes := ownSize cfg cacheLineSize pid object
            ownership := .owner
            object := id } }.setClient pid object none
  else none

/-- What the next step of the handler opens. -/
def opening : ClientBankHandoff.HandlerPc →
    Option (SubscribeRequest × Fin maxClients × ClientObject)
  | .addBuild req slot (step :: _) => step.opens.map fun object => (req, slot, object)
  | _ => none

/-- The slots whose context is destroyed with the next step of the handler. -/
def resets (slot : Fin maxClients) : ClientBankHandoff.HandlerPc → Bool
  | .addReset _ i => i = slot
  | _ => false

def handlerStep (s : State) (throws : Bool) (faults : Faults) : Option State :=
  let run (throws : Bool) := Deployment.step cfg s.deployment (.handler throws)
  match opening s.deployment.cycle.server.handler with
  | some (req, slot, object) =>
      if throws then (run true).map fun deployment => { s with deployment := deployment }
      else
        match SharedMemoryObjects.construct s.kernel
          (sizeInBytes cacheLineSize req.m req.n object) (object.shmObjectName req.clientId)
          .borrower .noInit faults with
        | (kernel, .ok id) => (run false).map fun deployment =>
            { s with deployment := deployment, kernel := kernel }.setSlot slot object id
        | (kernel, .error _) => (run true).map fun deployment =>
            { s with deployment := deployment, kernel := kernel }
  | none => (run throws).map fun deployment =>
      { s with
        deployment := deployment
        slot := fun slot object =>
          if resets slot s.deployment.cycle.server.handler then none else s.slot slot object }

/-- The step constructs nothing. -/
def quiet : Deployment.Action → Bool
  | .construct .. | .handler _ => false
  | _ => true

def step (s : State) : Action → Option State
  | .create pid faults => createStep cfg cacheLineSize s pid faults
  | .construct pid throws dist => constructStep cfg s pid throws dist
  | .destroy pid object => destroyStep cfg cacheLineSize s pid object
  | .handler throws faults => handlerStep cfg cacheLineSize s throws faults
  | .other a =>
      if quiet a then
        (Deployment.step cfg s.deployment a).map fun deployment =>
          { s with deployment := deployment }
      else none

/-- No shared-memory object exists. -/
def initial (memory : Memory) : State where
  deployment := Deployment.initial cfg memory
  kernel := SharedMemoryObjects.initial.kernel
  client _ _ := none
  slot _ _ := none

def machine : Lib.Machine State Action where
  init s := ∃ memory, s = initial cfg memory
  step := step cfg cacheLineSize

end DeploymentObjects

end MatrixTransposer
