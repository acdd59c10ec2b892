import MatrixTransposer.ClientBankHandoff
import MatrixTransposer.FutexSignaller
import MatrixTransposer.SpscQueueSeqLock

/-!
# The request cycle

Any number of clients, each in the loop of its `main`, together with the server. A client enqueues a
buffer index, ignores what `Enqueue` answers, and waits on its futex; `WorkloadDispatcher` goes
round the bank, dequeues, transposes and wakes. A client and the server share the client's queue and
its futex, which the server finds by the pid under which the client has created them.

The server is the one of `ClientBankHandoff`, whose dispatcher makes a single step on each slot.
Here that step is divided into the accesses that `Dequeue` and `Wake` make. The call of
`TransposeTiledMultiThreaded` is what the dispatcher does at `transpose`, and leaving it is
finishing the call.
-/

namespace MatrixTransposer.RequestCycle

inductive Party where
  | client
  | server
  deriving DecidableEq

/-- Where `main` of a client stands in its two loops. -/
inductive MainPc where
  | loop (repetition bufferIndex : UInt32)
  | enqueue (repetition bufferIndex : UInt32)
  | callWait (repetition bufferIndex : UInt32)
  | wait (repetition bufferIndex : UInt32)
  | done
  deriving DecidableEq

structure Client where
  k : UInt32
  requestRepetitions : UInt32
  queue : SpscQueueSeqLock.State
  futex : FutexSignaller.State Party
  main : MainPc

/-- Where the dispatcher stands in its work on a slot. -/
inductive WorkPc where
  | callDequeue
  | dequeue
  | transpose (bufferIndex : UInt32)
  | callWake
  | wake
  | leave (served : Bool)

namespace Client

def start (k requestRepetitions : UInt32) : Client where
  k := k
  requestRepetitions := requestRepetitions
  queue := SpscQueueSeqLock.initial 0
  futex := FutexSignaller.initial
  main := .loop 0 0

/-- The next step of `main`. A client may begin before the server has answered its `Subscribe`;
nothing depends on its waiting for that. -/
def step (c : Client) : Option Client :=
  match c.main with
  | .loop repetition bufferIndex =>
      if repetition < c.requestRepetitions then
        if bufferIndex < c.k then
          (SpscQueueSeqLock.step reqQueueCapacity c.queue (.enqueue bufferIndex)).map fun queue =>
            { c with queue := queue, main := .enqueue repetition bufferIndex }
        else some { c with main := .loop (repetition + 1) 0 }
      else some { c with main := .done }
  | .enqueue repetition bufferIndex =>
      -- the answer of `Enqueue` is dropped
      (SpscQueueSeqLock.step reqQueueCapacity c.queue .producer).map fun queue =>
        { c with
          queue := queue
          main := if queue.producer = .idle then .callWait repetition bufferIndex else c.main }
  | .callWait repetition bufferIndex =>
      (FutexSignaller.step c.futex (.wait .client)).map fun futex =>
        { c with futex := futex, main := .wait repetition bufferIndex }
  | .wait repetition bufferIndex =>
      (FutexSignaller.step c.futex (.run .client)).map fun futex =>
        { c with
          futex := futex
          main :=
            if futex.pc .client = .idle then .loop repetition (bufferIndex + 1) else c.main }
  | .done => none

/-- Where the dispatcher stands when `Dequeue` has made the access with these answers. -/
def afterDequeue : List (Lib.FifoOp UInt32) → WorkPc
  | [] | .enqueue _ _ :: _ => .dequeue
  | .dequeue (some bufferIndex) :: _ => .transpose bufferIndex
  | .dequeue none :: _ => .leave false

def serve (c : Client) : WorkPc → Option (Client × WorkPc)
  | .callDequeue =>
      (SpscQueueSeqLock.step reqQueueCapacity c.queue .dequeue).map fun queue =>
        ({ c with queue := queue }, .dequeue)
  | .dequeue =>
      (SpscQueueSeqLock.step reqQueueCapacity c.queue .consumer).map fun queue =>
        ({ c with queue := queue }, afterDequeue (SpscQueueSeqLock.returns c.queue .consumer))
  | .transpose _ => some (c, .callWake)
  | .callWake =>
      (FutexSignaller.step c.futex (.wake .server)).map fun futex =>
        ({ c with futex := futex }, .wake)
  | .wake =>
      (FutexSignaller.step c.futex (.run .server)).map fun futex =>
        ({ c with futex := futex }, if futex.pc .server = .idle then .leave true else .wake)
  | .leave _ => none

end Client

/-- The client that the dispatcher's next step is about. The calls go through the pointers of the
context; the matrices are those of the context itself. -/
def WorkPc.clientPid (ctx : ClientContext) : WorkPc → Option UInt32
  | .callDequeue | .dequeue => ctx.pRequestQueue.map SharedObject.ownerPid
  | .transpose _ => some ctx.id
  | .callWake | .wake => ctx.pTransposeReadyFutex.map SharedObject.ownerPid
  | .leave _ => none

structure State where
  server : ClientBankHandoff.State
  work : WorkPc
  clients : UInt32 → Client

inductive Action where
  | client (pid : UInt32)
  /-- A spurious wake-up of the client. -/
  | interrupt (pid : UInt32)
  | server (a : ClientBankHandoff.Action)

def State.setClient (s : State) (pid : UInt32) (c : Client) : State :=
  { s with clients := Function.update s.clients pid c }

/-- A step of `WorkloadDispatcher`. When it leaves a slot, `times` holds the times of the request if
it has served one. -/
def dispatcherStep (s : State) (times : Option (UInt64 × UInt64)) : Option State :=
  match s.server.dispatcher with
  | .use slot =>
      match s.work with
      | .leave served =>
          if times.isSome = served then
            (ClientBankHandoff.dispatcherStep s.server times).map fun server =>
              { s with server := server, work := .callDequeue }
          else none
      | work =>
          (work.clientPid (s.server.workspace.clientBank slot)).bind fun pid =>
            ((s.clients pid).serve work).map fun (c, work) =>
              { s.setClient pid c with work := work }
  | _ =>
      (ClientBankHandoff.dispatcherStep s.server times).map fun server =>
        { s with server := server }

def step (uninitialized : Int32) (s : State) : Action → Option State
  | .client pid => (s.clients pid).step.map fun c => s.setClient pid c
  | .interrupt pid =>
      (FutexSignaller.step (s.clients pid).futex (.interrupt .client)).map fun futex =>
        s.setClient pid { s.clients pid with futex := futex }
  | .server (.dispatcher times) => dispatcherStep s times
  | .server a =>
      (ClientBankHandoff.step uninitialized s.server a).map fun server =>
        { s with server := server }

def initial (serverPid : UInt32) (k requestRepetitions : UInt32 → UInt32) : State where
  server := ClientBankHandoff.initial serverPid
  work := .callDequeue
  clients pid := Client.start (k pid) (requestRepetitions pid)

def machine (uninitialized : Int32) : Lib.Machine State Action where
  init s := ∃ serverPid k requestRepetitions, s = initial serverPid k requestRepetitions
  step := step uninitialized

/-! ## What is seen of a client's requests -/

inductive Event where
  | called (bufferIndex : UInt32)
  | enqueued (bufferIndex : UInt32) (accepted : Bool)
  /-- `Dequeue` returns true. -/
  | dequeued (bufferIndex : UInt32)
  | transposed (bufferIndex : UInt32)
  /-- `Wake` sets the futex. -/
  | raised
  /-- `Wait` resets the futex and returns. -/
  | waited (bufferIndex : UInt32)
  deriving DecidableEq

namespace Client

def shows (c : Client) : List Event :=
  match c.main with
  | .loop repetition bufferIndex =>
      if repetition < c.requestRepetitions ∧ bufferIndex < c.k then [.called bufferIndex] else []
  | .enqueue _ _ =>
      (SpscQueueSeqLock.returns c.queue .producer).flatMap fun op => match op with
        | .enqueue bufferIndex accepted => [.enqueued bufferIndex accepted]
        | .dequeue _ => []
  | .wait _ bufferIndex =>
      (FutexSignaller.signals c.futex (.run .client)).map fun _ => .waited bufferIndex
  | _ => []

def servingShows (c : Client) : WorkPc → List Event
  | .dequeue => (Lib.FifoOp.dequeued (SpscQueueSeqLock.returns c.queue .consumer)).map .dequeued
  | .transpose bufferIndex => [.transposed bufferIndex]
  | .wake => (FutexSignaller.signals c.futex (.run .server)).map fun _ => .raised
  | _ => []

end Client

/-- What a step shows of the client with this pid. -/
def observe (pid : UInt32) (s : State) : Action → List Event
  | .client p => if p = pid then (s.clients pid).shows else []
  | .server (.dispatcher _) =>
      match s.server.dispatcher with
      | .use slot =>
          if s.work.clientPid (s.server.workspace.clientBank slot) = some pid then
            (s.clients pid).servingShows s.work
          else []
      | _ => []
  | _ => []

namespace Event

def called? : Event → Option UInt32
  | .called bufferIndex => some bufferIndex
  | _ => none

def enqueued? : Event → Option UInt32
  | .enqueued bufferIndex true => some bufferIndex
  | _ => none

def transposed? : Event → Option UInt32
  | .transposed bufferIndex => some bufferIndex
  | _ => none

def waited? : Event → Option UInt32
  | .waited bufferIndex => some bufferIndex
  | _ => none

end Event

end MatrixTransposer.RequestCycle
