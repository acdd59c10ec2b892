import MatrixTransposer.TransposeServer

/-!
# The server and clients that send what they like

The server of `TransposeServer`, with clients that follow no loop: a client, subscribed or not,
calls `Enqueue` on its queue with whatever item it likes, and `Wait` on its futex, at any time.
-/

namespace MatrixTransposer.AnyClients

open RequestCycle (State Client)

/-- A client calls one of the two methods, or a running call makes its next access. -/
inductive ClientAction where
  | enqueue (item : UInt32)
  | producer
  | wait
  | run
  /-- A spurious wake-up. -/
  | interrupt

def clientStep (c : Client) : ClientAction → Option Client
  | .enqueue item =>
      (SpscQueueSeqLock.step reqQueueCapacity c.queue (.enqueue item)).map fun queue =>
        { c with queue := queue }
  | .producer =>
      (SpscQueueSeqLock.step reqQueueCapacity c.queue .producer).map fun queue =>
        { c with queue := queue }
  | .wait =>
      (FutexSignaller.step c.futex (.wait .client)).map fun futex => { c with futex := futex }
  | .run => (FutexSignaller.step c.futex (.run .client)).map fun futex => { c with futex := futex }
  | .interrupt =>
      (FutexSignaller.step c.futex (.interrupt .client)).map fun futex => { c with futex := futex }

inductive Action where
  | server (a : TransposeServer.ServerAction)
  | client (pid : UInt32) (a : ClientAction)

def step (uninitialized : Int32) (s : State) : Action → Option State
  | .server a => TransposeServer.serverStep uninitialized s a
  | .client pid a => (clientStep (s.clients pid) a).map (s.setClient pid)

def machine (uninitialized : Int32) : Lib.Machine State Action where
  init := (RequestCycle.machine uninitialized).init
  step := step uninitialized

/-! ## What is seen of the requests -/

inductive Event where
  /-- An `Enqueue` of the client returns true. -/
  | enqueued (pid item : UInt32)
  /-- The dispatcher takes an item off the client's queue; `k` is that of the context. -/
  | taken (pid item k : UInt32)
  deriving DecidableEq

def observe (s : State) : Action → List Event
  | .client pid .producer =>
      (Lib.FifoOp.enqueued
        (SpscQueueSeqLock.returns (s.clients pid).queue .producer)).map (.enqueued pid)
  | .server (.dispatcher _) =>
      match s.server.dispatcher, s.work with
      | .use slot, .dequeue =>
          let ctx := s.server.workspace.clientBank slot
          match ctx.pRequestQueue with
          | some queue =>
              (Lib.FifoOp.dequeued (SpscQueueSeqLock.returns (s.clients queue.ownerPid).queue
                .consumer)).map fun item => .taken queue.ownerPid item ctx.matrixSize.k
          | none => []
      | _, _ => []
  | _ => []

/-- The items the client has enqueued, in order. -/
def enqueuedBy (pid : UInt32) (events : List Event) : List UInt32 :=
  events.filterMap fun e => match e with
    | .enqueued p item => if p = pid then some item else none
    | .taken _ _ _ => none

/-- What has been taken off the client's queue, in order, each item with the `k` of the context for
which it was taken. -/
def takenFrom (pid : UInt32) (events : List Event) : List (UInt32 × UInt32) :=
  events.filterMap fun e => match e with
    | .enqueued _ _ => none
    | .taken p item k => if p = pid then some (item, k) else none

/-- The dispatcher is about to access `matrixBuffers[bufferIndex]` and
`matrixBuffersTr[bufferIndex]` of the slot's context. -/
def Accesses (s : State) (slot : Fin maxClients) (bufferIndex : UInt32) : Prop :=
  s.server.dispatcher = .use slot ∧ s.work = .transpose bufferIndex

end MatrixTransposer.AnyClients
