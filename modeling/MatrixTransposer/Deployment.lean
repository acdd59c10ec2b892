import MatrixTransposer.ClientMain
import MatrixTransposer.TransposeServer
import MatrixTransposer.TranspositionService

/-!
# The server and its clients as a whole

`TransposeServer` together with what it leaves out: `main` of a client from its constructors to its
exit, the messages on the sockets, the words of the shared matrices, and the threads of
`TransposeTiledMultiThreaded`, copy by copy. A socket delivers whole messages in the order in which
they were sent. A shared matrix has the same words for every process that maps it, so its address
stands for its place in the memory of the machine. A step is not taken when the language does not
say what it does.
-/

namespace MatrixTransposer.Deployment

open TransposeClient (Arguments BufferVector ClientBuffers)

/-- A client with these arguments may construct the buffer. -/
def Created (arguments : UInt32 → Arguments) (buffer : SharedMatrixBuffer) : Prop :=
  ∃ pid, ∃ vector : BufferVector, ∃ bufferIndex,
    SharedMatrixBuffer.construct false pid (arguments pid).m (arguments pid).n bufferIndex
      vector.nameSuffix = some buffer

/-- What does not change in a run. -/
structure Config where
  /-- What `int32_t indexToAdd;` happens to hold. -/
  uninitialized : Int32
  serverPid : UInt32
  numWorkerThreads : UInt32
  /-- The arguments of each client, known by its pid. -/
  arguments : UInt32 → Arguments
  /-- What `ClientServerMessage unsubscribeMessage;` happens to hold. -/
  uninitializedMessage : UInt32 → ClientServerMessage
  /-- The descriptor by which the server knows the connection of a client. -/
  socket : UInt32 → Nat
  socket_injective : Function.Injective socket
  rawPointer : SharedMatrixBuffer → Nat
  apart : ∀ a b, Created arguments a → Created arguments b → a ≠ b →
    rawPointer a + a.mappedElements ≤ rawPointer b ∨ rawPointer b + b.mappedElements ≤ rawPointer a

/-- Where `main` of a client stands; inside its two loops it stands as in `RequestCycle`. -/
inductive Phase where
  | construct
  | subscribe
  | awaitResponse
  | requests
  | unsubscribe
  | verify
  | exited (status : Nat)
  deriving DecidableEq

structure State where
  cycle : RequestCycle.State
  memory : Memory
  /-- What is left to the threads of the running call, if one is running. -/
  threads : Option (UInt32 → List (Lib.Assign Nat))
  phase : UInt32 → Phase
  buffers : UInt32 → Option ClientBuffers
  subscribeResponseReceived : UInt32 → Bool
  toServer : Nat → List ClientServerMessage
  toClient : Nat → List ClientServerMessage
  /-- The connection and the sender of the message that is being handled. -/
  caller : Option (UnixSockIpcContext × UInt32)
  /-- The response that `MessageHandler` sends before it returns. -/
  response : Option (UnixSockIpcContext × ClientServerMessage)

inductive Action where
  /-- The `try` block of the client's `main`. If `throws` is set the endpoint, the futex or the
  queue cannot be constructed; `dist` is what the distribution answers for each buffer. -/
  | construct (pid : UInt32) (throws : Bool) (fails : BufferVector → UInt32 → Bool)
      (dist : UInt32 → Nat → UInt64)
  /-- The next step of the client's `main`. -/
  | main (pid : UInt32)
  | interrupt (pid : UInt32)
  /-- The client's socket thread calls its `MessageHandler`. -/
  | receive (pid : UInt32)
  /-- The server's socket thread calls `MessageHandler` with the next message of the connection. -/
  | message (fd : Nat)
  | handler (throws : Bool)
  | send
  | dispatcher (times : Option (UInt64 × UInt64))
  | worker (t : UInt32)
  | stop

variable (cfg : Config)

def Config.subscribeMessage (pid : UInt32) : ClientServerMessage :=
  .generateSubscribeMessage pid (cfg.arguments pid).m (cfg.arguments pid).n (cfg.arguments pid).k

def Config.unsubscribeMessage (pid : UInt32) : ClientServerMessage :=
  (cfg.uninitializedMessage pid).generateUnsubscribeMessage pid

def State.setPhase (s : State) (pid : UInt32) (phase : Phase) : State :=
  { s with phase := Function.update s.phase pid phase }

def State.sendToServer (s : State) (fd : Nat) (message : ClientServerMessage) : State :=
  { s with toServer := Function.update s.toServer fd (s.toServer fd ++ [message]) }

/-! ## The client's `main` -/

/-- The language says what the block does. -/
def Arguments.Defined (a : Arguments) : Prop := a.k = 0 ∨ (a.m < 64 ∧ a.n < 64 ∧ a.k < 2 ^ 31)

instance (a : Arguments) : Decidable (Arguments.Defined a) := inferInstanceAs (Decidable (_ ∨ _))

/-- The buffers and the memory after the `try` block, unless it throws. -/
def constructed (s : State) (pid : UInt32) (throws : Bool) (fails : BufferVector → UInt32 → Bool)
    (dist : UInt32 → Nat → UInt64) : Option (ClientBuffers × Memory) :=
  if throws then none
  else
    (TransposeClient.constructBuffers fails pid (cfg.arguments pid).m (cfg.arguments pid).n
      (cfg.arguments pid).k).map fun buffers =>
        (buffers, TransposeClient.fillBuffers cfg.rawPointer dist buffers (cfg.arguments pid).k
          s.memory)

/-- What the constructors have written before one throws is not looked at again. No process has the
identifier 0. -/
def constructStep (s : State) (pid : UInt32) (throws : Bool)
    (fails : BufferVector → UInt32 → Bool) (dist : UInt32 → Nat → UInt64) : Option State :=
  if s.phase pid = .construct ∧ pid ≠ 0 ∧ Arguments.Defined (cfg.arguments pid) then
    match constructed cfg s pid throws fails dist with
    | none => some (s.setPhase pid (.exited 1))
    | some (buffers, memory) =>
        some { s with
          phase := Function.update s.phase pid .subscribe
          buffers := Function.update s.buffers pid (some buffers)
          memory := memory }
  else none

def verifyStep (s : State) (pid : UInt32) : Option State :=
  (s.buffers pid).bind fun buffers =>
    (TransposeClient.verify cfg.rawPointer pid (cfg.arguments pid).m (cfg.arguments pid).n buffers
      (cfg.arguments pid).k s.memory).map fun v =>
        { s with phase := Function.update s.phase pid (.exited v.status), memory := v.mem }

def cycleStep (s : State) (a : TransposeServer.Action) : Option State :=
  (TransposeServer.step cfg.uninitialized s.cycle a).map fun cycle => { s with cycle := cycle }

def mainStep (s : State) (pid : UInt32) : Option State :=
  match s.phase pid with
  | .construct | .exited _ => none
  | .subscribe =>
      some ((s.sendToServer (cfg.socket pid) (cfg.subscribeMessage pid)).setPhase pid
        .awaitResponse)
  | .awaitResponse =>
      if s.subscribeResponseReceived pid then some (s.setPhase pid .requests) else some s
  | .requests =>
      if (s.cycle.clients pid).main = .done then some (s.setPhase pid .unsubscribe)
      else cycleStep cfg s (.client pid)
  | .unsubscribe =>
      some ((s.sendToServer (cfg.socket pid) (cfg.unsubscribeMessage pid)).setPhase pid .verify)
  | .verify => verifyStep cfg s pid

/-! ## The server -/

/-- The slot and the buffer index of the call of `TransposeTiledMultiThreaded` that the dispatcher
makes or has made. -/
def State.job (s : State) : Option (Fin maxClients × UInt32) :=
  match s.cycle.server.dispatcher with
  | .use slot =>
      match s.cycle.work with
      | .transpose bufferIndex => some (slot, bufferIndex)
      | _ => none
  | _ => none

/-- The threads are started. `none` when a vector has no buffer at the index, and when the matrices
are smaller than a tile, since the threads would leave them. -/
def startThreads (s : State) (ctx : ClientContext) (bufferIndex : UInt32) : Option State :=
  match ctx.matrixBuffers[bufferIndex.toNat]?, ctx.matrixBuffersTr[bufferIndex.toNat]? with
  | some original, some transposed =>
      if transposeTileSize ≤ ctx.matrixSize.numRows ∧
          transposeTileSize ≤ ctx.matrixSize.numColumns then
        let pool := tiledPool (cfg.rawPointer original) (cfg.rawPointer transposed)
          ctx.matrixSize.numRows ctx.matrixSize.numColumns transposeTileSize cfg.numWorkerThreads
          s.memory
        some { s with threads := some pool.todo }
      else none
  | _, _ => none

def joined (todo : UInt32 → List (Lib.Assign Nat)) : Bool :=
  (upTo 0 cfg.numWorkerThreads).all fun t => (todo t).isEmpty

def dispatcherStep (s : State) (times : Option (UInt64 × UInt64)) : Option State :=
  match s.job with
  | none => cycleStep cfg s (.server (.dispatcher times))
  | some (slot, bufferIndex) =>
      match s.threads with
      | none => startThreads cfg s (s.cycle.server.workspace.clientBank slot) bufferIndex
      | some todo =>
          if joined cfg todo then
            (cycleStep cfg s (.server (.dispatcher times))).map fun s => { s with threads := none }
          else none

def workerStep (s : State) (t : UInt32) : Option State :=
  s.threads.bind fun todo =>
    (Lib.Pool.step Lib.Assign.run { store := s.memory, todo := todo } t).map fun pool =>
      { s with memory := pool.store, threads := some pool.todo }

def messageStep (s : State) (fd : Nat) : Option State :=
  if s.response.isNone then
    match s.toServer fd with
    | [] => none
    | message :: rest =>
        (cycleStep cfg s (.server (.message { socket := fd } message))).map fun s =>
          { s with
            toServer := Function.update s.toServer fd rest
            caller := some ({ socket := fd }, message.senderId) }
  else none

/-- `AddClient` returns true with the next step of the handler. -/
def adds : ClientBankHandoff.HandlerPc → Bool
  | .setFlag _ value => value
  | _ => false

def State.responseTo (s : State) (caller : UnixSockIpcContext × UInt32) :
    UnixSockIpcContext × ClientServerMessage :=
  (caller.1, .generateSubscribeResponseMessage s.cycle.server.workspace.serverPid caller.2
    (UInt32.ofNat maxClients) (UInt32.ofNat maxClients))

def handlerStep (s : State) (throws : Bool) : Option State :=
  (cycleStep cfg s (.server (.handler throws))).map fun t =>
    if adds s.cycle.server.handler then { t with response := s.caller.map t.responseTo } else t

def sendStep (s : State) : Option State :=
  s.response.map fun (context, message) =>
    { s with
      toClient := Function.update s.toClient context.socket (s.toClient context.socket ++ [message])
      response := none }

/-- The client's handler does not look at the message. -/
def receiveStep (s : State) (pid : UInt32) : Option State :=
  match s.toClient (cfg.socket pid) with
  | [] => none
  | _ :: rest =>
      some { s with
        toClient := Function.update s.toClient (cfg.socket pid) rest
        subscribeResponseReceived := Function.update s.subscribeResponseReceived pid true }

def step (s : State) : Action → Option State
  | .construct pid throws fails dist => constructStep cfg s pid throws fails dist
  | .main pid => mainStep cfg s pid
  | .interrupt pid => cycleStep cfg s (.interrupt pid)
  | .receive pid => receiveStep cfg s pid
  | .message fd => messageStep cfg s fd
  | .handler throws => handlerStep cfg s throws
  | .send => sendStep s
  | .dispatcher times => dispatcherStep cfg s times
  | .worker t => workerStep s t
  | .stop => cycleStep cfg s (.server .stop)

/-- No client has started. The memory holds anything. -/
def initial (memory : Memory) : State where
  cycle := RequestCycle.initial cfg.serverPid (fun pid => (cfg.arguments pid).k)
    fun pid => (cfg.arguments pid).requestRepetitions
  memory := memory
  threads := none
  phase _ := .construct
  buffers _ := none
  subscribeResponseReceived _ := false
  toServer _ := []
  toClient _ := []
  caller := none
  response := none

def machine : Lib.Machine State Action where
  init s := ∃ memory, s = initial cfg memory
  step := step cfg

/-! ## What is seen of the service -/

def Config.address (pid : UInt32) (vector : BufferVector) (bufferIndex : UInt32) : Nat :=
  match SharedMatrixBuffer.construct false pid (cfg.arguments pid).m (cfg.arguments pid).n
    bufferIndex vector.nameSuffix with
  | some buffer => cfg.rawPointer buffer
  | none => 0

abbrev Config.Rows (pid : UInt32) : Type := Fin (2 ^ (cfg.arguments pid).m.toNat)

abbrev Config.Cols (pid : UInt32) : Type := Fin (2 ^ (cfg.arguments pid).n.toNat)

def Config.matrixAt (memory : Memory) (pid bufferIndex : UInt32) :
    Matrix (cfg.Rows pid) (cfg.Cols pid) UInt64 :=
  Matrix.of fun i j =>
    memory (cfg.address pid .matrixBuffers bufferIndex +
      (i.val * 2 ^ (cfg.arguments pid).n.toNat + j.val))

def Config.resultAt (memory : Memory) (pid bufferIndex : UInt32) :
    Matrix (cfg.Cols pid) (cfg.Rows pid) UInt64 :=
  Matrix.of fun j i =>
    memory (cfg.address pid .matrixBuffersTr bufferIndex +
      (j.val * 2 ^ (cfg.arguments pid).m.toNat + i.val))

abbrev Config.ServiceState : Type :=
  TranspositionService.State UInt32 UInt64 cfg.Rows cfg.Cols

abbrev Config.ServiceAction : Type :=
  TranspositionService.Action UInt32 UInt64 cfg.Rows cfg.Cols

def serviceAction (pid : UInt32) : RequestCycle.Event → Option cfg.ServiceAction
  | .called bufferIndex => some (.request pid bufferIndex)
  | .transposed bufferIndex => some (.serve pid bufferIndex)
  | .waited bufferIndex => some (.answer pid bufferIndex)
  | _ => none

/-- A request is served when the threads of its call have been joined. -/
def observe (s : State) : Action → List cfg.ServiceAction
  | .construct pid throws fails dist =>
      match constructed cfg s pid throws fails dist with
      | some (_, memory) => [.load pid (cfg.matrixAt memory pid) (cfg.resultAt memory pid)]
      | none => []
  | .main pid =>
      if s.phase pid = .requests then
        (s.cycle.clients pid).shows.filterMap (serviceAction cfg pid)
      else []
  | .dispatcher _ =>
      match s.job, s.threads with
      | some (slot, bufferIndex), some _ =>
          [.serve (s.cycle.server.workspace.clientBank slot).id bufferIndex]
      | _, _ => []
  | _ => []

end MatrixTransposer.Deployment
