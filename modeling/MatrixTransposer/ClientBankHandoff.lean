import MatrixTransposer.ServerWorkspace

/-!
# The handler and the dispatcher on the client bank

`AddClient` and `RemoveClient` run in the socket thread, `WorkloadDispatcher` in its own. They share
the bank, the bit set and the flag `clientBankUpdateAvailable`, and there is no lock. Here both
threads are stepped, one access at a time, in any order. A thread that waits for the flag makes
steps that change nothing.
-/

namespace MatrixTransposer.ClientBankHandoff

/-- Where the handler stands, named after what it does next. The calls publish their change of the
bit set in the same way; `value` is the bit's new value, so true in `AddClient`. -/
inductive HandlerPc where
  | idle
  | addSearch (req : SubscribeRequest) (i : Nat)
  | addReset (req : SubscribeRequest) (slot : Fin maxClients)
  | addBuild (req : SubscribeRequest) (slot : Fin maxClients) (steps : List BuildStep)
  | removeSearch (clientId : UInt32) (i : Nat)
  | waitFlag (slot : Fin maxClients) (value : Bool)
  | loadBits (slot : Fin maxClients) (value : Bool)
  | storeBits (slot : Fin maxClients) (value : Bool) (bits : UInt64)
  | setFlag (slot : Fin maxClients) (value : Bool)
  | waitAck (slot : Fin maxClients)
  | unsubscribe (slot : Fin maxClients)

/-- Where the dispatcher stands. While it is at `use` it works on the context of the slot. -/
inductive DispatcherPc where
  | loop
  | loadFlag
  | loadBits
  | clearFlag
  | scan (i : Nat)
  | use (slot : Fin maxClients)
  | exited
  deriving DecidableEq

structure State where
  workspace : ServerWorkspace
  running : Bool
  localValidClientsBitSet : UInt64
  handler : HandlerPc
  dispatcher : DispatcherPc

inductive Action where
  | add (req : SubscribeRequest)
  | remove (clientId : UInt32)
  /-- The running call makes its next step, which throws if it can and is told to. -/
  | handler (throws : Bool)
  /-- The dispatcher makes its next step. If it is the last on a slot where `Dequeue` found a
  request, `served` holds the times at which the request was started and finished. -/
  | dispatcher (served : Option (UInt64 × UInt64))
  /-- `main` ends the server. -/
  | stop

def handlerStep (uninitialized : Int32) (ws : ServerWorkspace) (throws : Bool) :
    HandlerPc → Option (ServerWorkspace × HandlerPc)
  | .idle => none
  | .addSearch req i =>
      if h : i < maxClients then
        if getBit ws.validClientsBitSet i then some (ws, .addSearch req (i + 1))
        else some (ws, .addReset req ⟨i, h⟩)
      else
        -- the loop has assigned nothing
        (ServerWorkspace.bankElement uninitialized).map fun slot => (ws, .addReset req slot)
  | .addReset req slot =>
      some (ws.setClient slot ClientContext.new, .addBuild req slot (buildSteps req.k))
  | .addBuild _ slot [] => some (ws, .waitFlag slot true)
  | .addBuild req slot (s :: steps) =>
      match s.run req throws (ws.clientBank slot) with
      | none => some (ws, .idle)  -- return false
      | some ctx => some (ws.setClient slot ctx, .addBuild req slot steps)
  | .removeSearch clientId i =>
      if h : i < maxClients then
        if (ws.clientBank ⟨i, h⟩).id = clientId then some (ws, .waitFlag ⟨i, h⟩ false)
        else some (ws, .removeSearch clientId (i + 1))
      else some (ws, .waitFlag ⟨0, maxClients_pos⟩ false)
  | .waitFlag slot value =>
      if ws.clientBankUpdateAvailable then some (ws, .waitFlag slot value)
      else some (ws, .loadBits slot value)
  | .loadBits slot value =>
      some (ws, .storeBits slot value (setBit ws.validClientsBitSet slot value))
  | .storeBits slot value bits => some ({ ws with validClientsBitSet := bits }, .setFlag slot value)
  | .setFlag slot value =>
      -- here `AddClient` returns true
      some ({ ws with clientBankUpdateAvailable := true }, if value then .idle else .waitAck slot)
  | .waitAck slot =>
      if ws.clientBankUpdateAvailable then some (ws, .waitAck slot)
      else some (ws, .unsubscribe slot)
  | .unsubscribe slot =>
      some (ws.setClient slot { ws.clientBank slot with subscribed := false }, .idle)

def dispatcherStep (s : State) (served : Option (UInt64 × UInt64)) : Option State :=
  match s.dispatcher with
  | .loop => some { s with dispatcher := if s.running then .loadFlag else .exited }
  | .loadFlag =>
      some { s with
        dispatcher := if s.workspace.clientBankUpdateAvailable then .loadBits else .scan 0 }
  | .loadBits =>
      some { s with
        localValidClientsBitSet := s.workspace.validClientsBitSet
        dispatcher := .clearFlag }
  | .clearFlag =>
      some { s with
        workspace := { s.workspace with clientBankUpdateAvailable := false }
        dispatcher := .scan 0 }
  | .scan i =>
      if h : i < maxClients then
        if getBit s.localValidClientsBitSet i then some { s with dispatcher := .use ⟨i, h⟩ }
        else some { s with dispatcher := .scan (i + 1) }
      else some { s with dispatcher := .loop }
  | .use slot =>
      let ctx := s.workspace.clientBank slot
      let ctx :=
        match served with
        | some (start, finish) =>
            { ctx with stats := (ctx.stats.startTimer start).stopTimer finish }
        | none => ctx
      some { s with
        workspace := s.workspace.setClient slot ctx
        dispatcher := .scan (slot.val + 1) }
  | .exited => none

/-- `AddClient` is called only while fewer than `MAX_CLIENTS` clients are subscribed. -/
def step (uninitialized : Int32) (s : State) : Action → Option State
  | .add req =>
      match s.handler with
      | .idle =>
          if s.workspace.subscribedCount < maxClients then
            some { s with handler := .addSearch req 0 }
          else none
      | _ => none
  | .remove clientId =>
      match s.handler with
      | .idle => some { s with handler := .removeSearch clientId 0 }
      | _ => none
  | .handler throws =>
      (handlerStep uninitialized s.workspace throws s.handler).map fun (ws, pc) =>
        { s with workspace := ws, handler := pc }
  | .dispatcher served => dispatcherStep s served
  | .stop => some { s with running := false }

def initial (serverPid : UInt32) : State :=
  { workspace := ServerWorkspace.initial serverPid, running := true, localValidClientsBitSet := 0,
    handler := .idle, dispatcher := .loop }

def machine (uninitialized : Int32) : Lib.Machine State Action where
  init s := ∃ serverPid, s = initial serverPid
  step := step uninitialized

/-- No call of the handler is running. -/
def HandlerPc.isIdle : HandlerPc → Bool
  | .idle => true
  | _ => false

/-- The handler is resetting, building or marking the slot. -/
def HandlerPc.writes (slot : Fin maxClients) : HandlerPc → Prop
  | .addReset _ i | .addBuild _ i _ | .unsubscribe i => i = slot
  | _ => False

end MatrixTransposer.ClientBankHandoff
