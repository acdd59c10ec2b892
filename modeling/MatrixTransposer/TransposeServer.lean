import MatrixTransposer.RequestCycle

/-!
# `transpose_server`

The whole server with its clients. The socket thread gives the messages to `MessageHandler` one
after the other, in whatever order they arrive; the handler looks the sender up in the bank and
calls `AddClient` or `RemoveClient`. What these do, what `WorkloadDispatcher` does, and what the
clients do in their loops, is stepped as in `RequestCycle`. `main` may end the server at any time.
-/

namespace MatrixTransposer.TransposeServer

open RequestCycle (State)

inductive ServerAction where
  /-- The socket thread calls `MessageHandler` with a message. -/
  | message (context : UnixSockIpcContext) (message : ClientServerMessage)
  | handler (throws : Bool)
  | dispatcher (times : Option (UInt64 × UInt64))
  | stop

/-- The call that `MessageHandler` makes for the message, if it makes one. -/
def messageCall (ws : ServerWorkspace) (context : UnixSockIpcContext)
    (message : ClientServerMessage) : Option ClientBankHandoff.Action :=
  match message.type with
  | .subscribe =>
      match message.processSubscribeMessage with
      | none => none
      | some (clientId, m, n, k) =>
          match ws.clientExists clientId with
          | some _ => none
          | none => some (.add { clientId := clientId, m := m, n := n, k := k, context := context })
  | .unsubscribe =>
      match message.processUnsubscribeMessage with
      | none => none
      | some clientId => (ws.clientExists clientId).map fun _ => .remove clientId
  | _ => none

/-- The context whose `clientSummary` the handler logs before it removes the client. -/
def reported (ws : ServerWorkspace) (message : ClientServerMessage) : Option ClientContext :=
  match message.type with
  | .unsubscribe =>
      match message.processUnsubscribeMessage with
      | none => none
      | some clientId => (ws.clientExists clientId).map ws.clientBank
  | _ => none

/-- The thread is free for the next message when the call for the last one has returned. -/
def serverStep (uninitialized : Int32) (s : State) : ServerAction → Option State
  | .message context message =>
      match s.server.handler with
      | .idle =>
          match messageCall s.server.workspace context message with
          | none => some s
          | some call => RequestCycle.step uninitialized s (.server call)
      | _ => none
  | .handler throws => RequestCycle.step uninitialized s (.server (.handler throws))
  | .dispatcher times => RequestCycle.step uninitialized s (.server (.dispatcher times))
  | .stop => RequestCycle.step uninitialized s (.server .stop)

inductive Action where
  | server (a : ServerAction)
  | client (pid : UInt32)
  | interrupt (pid : UInt32)

def step (uninitialized : Int32) (s : State) : Action → Option State
  | .server a => serverStep uninitialized s a
  | .client pid => RequestCycle.step uninitialized s (.client pid)
  | .interrupt pid => RequestCycle.step uninitialized s (.interrupt pid)

def machine (uninitialized : Int32) : Lib.Machine State Action where
  init := (RequestCycle.machine uninitialized).init
  step := step uninitialized

/-- What a step shows of the requests of the client with this pid. -/
def observe (pid : UInt32) (s : State) : Action → List RequestCycle.Event
  | .server (.dispatcher times) => RequestCycle.observe pid s (.server (.dispatcher times))
  | .client p => RequestCycle.observe pid s (.client p)
  | _ => []

end MatrixTransposer.TransposeServer
