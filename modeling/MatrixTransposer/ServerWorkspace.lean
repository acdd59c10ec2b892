import MatrixTransposer.ClientContext
import MatrixTransposer.ClientServerMessage
import MatrixTransposer.Lib.Machine
import Mathlib.Data.List.FinRange

/-!
# `ServerWorkspace` and `MessageHandler`

The bank of client contexts and the handler's functions on it, each run to its end. The loops that
wait for the dispatcher end when it has taken the bank update, which here is one assignment.
-/

namespace MatrixTransposer

def setBit (number : UInt64) (position : Nat) (value : Bool) : UInt64 :=
  if value then number ||| 1 <<< UInt64.ofNat position
  else number &&& ~~~(1 <<< UInt64.ofNat position)

def getBit (number : UInt64) (position : Nat) : Bool :=
  number &&& 1 <<< UInt64.ofNat position != 0

structure ServerWorkspace where
  serverPid : UInt32
  clientBank : Fin maxClients → ClientContext
  clientBankUpdateAvailable : Bool
  validClientsBitSet : UInt64

structure Environment where
  /-- What `int32_t indexToAdd;` happens to hold. -/
  uninitialized : Int32
  /-- Which statements of the `try` block the environment makes throw. -/
  fails : BuildStep → Bool

namespace ServerWorkspace

/-- The workspace when `main` starts the server. -/
def initial (serverPid : UInt32) : ServerWorkspace :=
  { serverPid := serverPid, clientBank := fun _ => ClientContext.new,
    clientBankUpdateAvailable := false, validClientsBitSet := 0 }

/-- The slot that the loop breaks at. -/
def clientExists (ws : ServerWorkspace) (clientId : UInt32) : Option (Fin maxClients) :=
  (List.finRange maxClients).find? fun i =>
    (ws.clientBank i).subscribed && (ws.clientBank i).id == clientId

def firstClearBit (validClientsBitSet : UInt64) : Option (Fin maxClients) :=
  (List.finRange maxClients).find? fun i => !getBit validClientsBitSet i

/-- The loop assigns the index only when it finds a clear bit. -/
def indexToAdd (uninitialized : Int32) (validClientsBitSet : UInt64) : Int32 :=
  match firstClearBit validClientsBitSet with
  | some i => Int32.ofNat i
  | none => uninitialized

/-- The element of the bank with an index; the access is undefined if there is none. -/
def bankElement (index : Int32) : Option (Fin maxClients) :=
  if h : 0 ≤ index.toInt ∧ index.toInt < maxClients then
    some ⟨index.toInt.toNat, (Int.toNat_lt h.1).mpr h.2⟩
  else none

def setClient (ws : ServerWorkspace) (i : Fin maxClients) (ctx : ClientContext) : ServerWorkspace :=
  { ws with clientBank := Function.update ws.clientBank i ctx }

@[simp] theorem setClient_self (ws : ServerWorkspace) (i : Fin maxClients) (ctx : ClientContext) :
    (ws.setClient i ctx).clientBank i = ctx :=
  Function.update_self _ _ _

theorem setClient_of_ne (ws : ServerWorkspace) {i j : Fin maxClients} (h : j ≠ i)
    (ctx : ClientContext) : (ws.setClient i ctx).clientBank j = ws.clientBank j :=
  Function.update_of_ne h _ _

/-- `while (clientBankUpdateAvailable.load());` -/
def awaitDispatcher (ws : ServerWorkspace) : ServerWorkspace :=
  { ws with clientBankUpdateAvailable := false }

/-- `setBit(validClientsBitSet, i, value); clientBankUpdateAvailable.store(true);` -/
def publish (ws : ServerWorkspace) (i : Fin maxClients) (value : Bool) : ServerWorkspace :=
  { ws with
    validClientsBitSet := setBit ws.validClientsBitSet i value
    clientBankUpdateAvailable := true }

structure AddResult where
  workspace : ServerWorkspace
  slot : Fin maxClients
  added : Bool

/-- `none` when the access to the bank is undefined. -/
def addClient (env : Environment) (ws : ServerWorkspace) (req : SubscribeRequest) :
    Option AddResult :=
  (bankElement (indexToAdd env.uninitialized ws.validClientsBitSet)).map fun i =>
    let (ctx, built) := runBuild req env.fails (buildSteps req.k) ClientContext.new
    let ws := ws.setClient i ctx
    if built then { workspace := ws.awaitDispatcher.publish i true, slot := i, added := true }
    else { workspace := ws, slot := i, added := false }

/-- The search does not look at `subscribed`. -/
def firstWithId (ws : ServerWorkspace) (clientId : UInt32) : Option (Fin maxClients) :=
  (List.finRange maxClients).find? fun i => (ws.clientBank i).id == clientId

def indexToRemove (ws : ServerWorkspace) (clientId : UInt32) : Fin maxClients :=
  (ws.firstWithId clientId).getD ⟨0, maxClients_pos⟩

def removeClient (ws : ServerWorkspace) (clientId : UInt32) : ServerWorkspace :=
  let i := ws.indexToRemove clientId
  let ws := ws.awaitDispatcher.publish i false
  let ws := ws.awaitDispatcher
  ws.setClient i { ws.clientBank i with subscribed := false }

end ServerWorkspace

/-- What `MessageHandler` leaves, writes to its logs and sends. -/
structure Handled where
  workspace : ServerWorkspace
  log : List String
  response : Option ClientServerMessage

def clientSummary (ctx : ClientContext) : String :=
  "client: " ++ toString ctx.id ++ ", m: " ++ toString ctx.matrixSize.m ++ ", n: " ++
    toString ctx.matrixSize.n ++ ", k: " ++ toString ctx.matrixSize.k ++ ", totalReqs: " ++
    toString ctx.stats.totalRequests ++ ", avgTime: " ++
    toString ctx.stats.getAverageElapsedTimeUs ++ " (ns)"

def handleSubscribe (env : Environment) (ws : ServerWorkspace) (req : SubscribeRequest) :
    Option Handled :=
  let pid := toString req.clientId
  match ws.clientExists req.clientId with
  | some _ =>
      some
        { workspace := ws, log := ["Client PID: " ++ pid ++ " already exists"], response := none }
  | none =>
      (ws.addClient env req).map fun result =>
        if result.added then
          { workspace := result.workspace
            log := ["New client: " ++ pid]
            response := some <| ClientServerMessage.generateSubscribeResponseMessage ws.serverPid
              req.clientId (UInt32.ofNat maxClients) (UInt32.ofNat maxClients) }
        else
          { workspace := result.workspace
            log := ["New client: " ++ pid,
              "Failed to set up client context for client PID: " ++ pid,
              "Failed to add client PID: " ++ pid]
            response := none }

def handleUnsubscribe (ws : ServerWorkspace) (clientId : UInt32) : Handled :=
  match ws.clientExists clientId with
  | none =>
      { workspace := ws
        log := ["Cannot remove client PID: " ++ toString clientId ++ ". Does not exist"]
        response := none }
  | some bankIndex =>
      { workspace := ws.removeClient clientId
        log := [clientSummary (ws.clientBank bankIndex)]
        response := none }

def messageHandler (env : Environment) (ws : ServerWorkspace) (context : UnixSockIpcContext)
    (message : ClientServerMessage) : Option Handled :=
  let sender := toString message.senderId
  match message.type with
  | .subscribe =>
      match message.processSubscribeMessage with
      | none =>
          some { workspace := ws
                 log := ["Failed to process subscribe message from client PID: " ++ sender]
                 response := none }
      | some (clientId, m, n, k) =>
          handleSubscribe env ws
            { clientId := clientId, m := m, n := n, k := k, context := context }
  | .unsubscribe =>
      match message.processUnsubscribeMessage with
      | none =>
          some { workspace := ws
                 log := ["Failed to process unsubscribe message from client PID: " ++ sender]
                 response := none }
      | some clientId => some (handleUnsubscribe ws clientId)
  | _ =>
      some { workspace := ws
             log := ["Received unknown message type from client PID: " ++ sender]
             response := none }

/-! ## Sequences of messages -/

structure Arrival where
  env : Environment
  context : UnixSockIpcContext
  message : ClientServerMessage

def messageMachine : Lib.Machine ServerWorkspace Arrival where
  init ws := ∃ serverPid, ws = ServerWorkspace.initial serverPid
  step ws a := (messageHandler a.env ws a.context a.message).map Handled.workspace

def ServerWorkspace.subscribedCount (ws : ServerWorkspace) : Nat :=
  (List.finRange maxClients).countP fun i => (ws.clientBank i).subscribed

/-- A `Subscribe` of a new client finds fewer than `MAX_CLIENTS` clients. -/
def ServerWorkspace.HasRoomFor (ws : ServerWorkspace) (message : ClientServerMessage) : Prop :=
  message.type = .subscribe → ws.clientExists message.senderId = none →
    ws.subscribedCount < maxClients

instance (ws : ServerWorkspace) (message : ClientServerMessage) :
    Decidable (ws.HasRoomFor message) :=
  inferInstanceAs (Decidable (_ → _ → _))

/-- The sequences of messages in which new clients come only while there is room. -/
def roomyMachine : Lib.Machine ServerWorkspace Arrival where
  init := messageMachine.init
  step ws a := if ws.HasRoomFor a.message then messageMachine.step ws a else none

end MatrixTransposer
