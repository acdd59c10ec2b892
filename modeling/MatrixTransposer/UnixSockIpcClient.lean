import MatrixTransposer.UnixSockIpcServer

/-!
# `UnixSockIpcClient::ClientThread`

The other end of a connection: a single socket, a batch of at most one event, and a thread that
returns when the connection is lost. As on the server's side, what a system call answers is part of
the action.
-/

namespace MatrixTransposer.UnixSockIpcClient

open UnixSockIpcServer (Connection Event Reply writeBuffer)

inductive Pc where
  /-- The test of the main loop. -/
  | loop
  | poll
  | dispatch (event : Event)
  /-- The test of the loop that assembles a message. -/
  | assemble (totalRead : Nat)
  | recv (totalRead : Nat)
  | handle
  | exited
  deriving DecidableEq

structure State where
  connection : Connection
  /-- The socket is registered with epoll. -/
  registered : Bool
  running : Bool
  connectionCount : UInt32
  buffer : Nat → UInt8
  pc : Pc

inductive Action where
  | arrive (bytes : List UInt8)
  | peerClose
  /-- The destructor sets `m_Running` to false. -/
  | stop
  | thread (reply : Reply)

/-- The socket is the only registered descriptor, so `epoll_wait` reports it or nothing. -/
def Deliverable (baseFd : Nat) (s : State) (event : Event) : Prop :=
  event.fd = baseFd ∧ s.registered = true ∧
    (event.hangUp = true → s.connection.peerClosed = true)

instance (baseFd : Nat) (s : State) (event : Event) : Decidable (Deliverable baseFd s event) :=
  inferInstanceAs (Decidable (_ ∧ _ ∧ _))

/-- The message that the handler is given. -/
def message (size : Nat) (s : State) : List UInt8 := (List.range size).map s.buffer

/-- `epoll_ctl(EPOLL_CTL_DEL)`, the decrement of the count, and `return`. The destructor closes the
socket itself. -/
def State.dropConnection (s : State) : State :=
  { s with
    registered := false
    connectionCount := s.connectionCount - 1
    running := false
    pc := .exited }

def pollStep (baseFd : Nat) (s : State) : Reply → Option State
  | .events [] => some { s with pc := .loop }
  | .events [event] =>
      if Deliverable baseFd s event then some { s with pc := .dispatch event } else none
  | .failed => some { s with running := false, pc := .exited }
  | _ => none

def recvStep (size : Nat) (s : State) (totalRead : Nat) : Reply → Option State
  | .data count =>
      if 0 < count ∧ count ≤ size - totalRead ∧ count ≤ s.connection.unread.length then
        some { s with
          connection := { s.connection with unread := s.connection.unread.drop count }
          buffer := writeBuffer s.buffer totalRead (s.connection.unread.take count)
          pc := .assemble (totalRead + count) }
      else none
  | .again => some { s with pc := .assemble totalRead }
  | .endOfStream =>
      if s.connection.unread = [] ∧ s.connection.peerClosed = true then
        some { s with pc := .assemble totalRead }
      else none
  | .failed => some s.dropConnection
  | _ => none

/-- A step that makes no system call. -/
def silentStep (t : State) : Reply → Option State
  | .none => some t
  | _ => none

def threadStep (size baseFd : Nat) (s : State) (reply : Reply) : Option State :=
  match s.pc with
  | .loop => silentStep { s with pc := if s.running then .poll else .exited } reply
  | .poll => pollStep baseFd s reply
  | .dispatch event =>
      silentStep
        (if event.hangUp then s.dropConnection
          else if event.readable then { s with pc := .assemble 0 }
          else { s with pc := .loop }) reply
  | .assemble totalRead =>
      silentStep { s with
        pc := if totalRead < size ∧ s.running = true then .recv totalRead else .handle } reply
  | .recv totalRead => recvStep size s totalRead reply
  | .handle => silentStep { s with pc := .loop } reply  -- the handler is given `message size s`
  | .exited => none

def step (size baseFd : Nat) (s : State) : Action → Option State
  | .arrive bytes =>
      if s.connection.peerClosed then none
      else some { s with
        connection := { s.connection with unread := s.connection.unread ++ bytes } }
  | .peerClose => some { s with connection := { s.connection with peerClosed := true } }
  | .stop => some { s with running := false }
  | .thread reply => threadStep size baseFd s reply

/-- The endpoint after its constructors, `connect` having succeeded. The one of `UnixSockIpcBase`
sets the count to 0, and that of `UnixSockIpcClient` does not touch it. -/
def initial (buffer : Nat → UInt8) : State :=
  { connection := { unread := [], peerClosed := false }, registered := true, running := true,
    connectionCount := 0, buffer := buffer, pc := .loop }

def machine (size baseFd : Nat) : Lib.Machine State Action where
  init s := ∃ buffer, s = initial buffer
  step := step size baseFd

inductive Observation where
  | arrived (bytes : List UInt8)
  | received (bytes : List UInt8)
  | handled (message : List UInt8)
  | stopped

def observe (size : Nat) (s : State) : Action → List Observation
  | .arrive bytes => [.arrived bytes]
  | .stop => [.stopped]
  | .thread (.data count) =>
      match s.pc with
      | .recv _ => [.received (s.connection.unread.take count)]
      | _ => []
  | .thread .none =>
      match s.pc with
      | .handle => [.handled (message size s)]
      | _ => []
  | _ => []

def arrivedBytes (os : List Observation) : List UInt8 :=
  os.flatMap fun
    | .arrived bytes => bytes
    | _ => []

def receivedBytes (os : List Observation) : List UInt8 :=
  os.flatMap fun
    | .received bytes => bytes
    | _ => []

def handledMessages (os : List Observation) : List (List UInt8) :=
  os.flatMap fun
    | .handled m => [m]
    | _ => []

/-- The connections established and not dropped. -/
def State.established (s : State) : Nat := if s.registered then 1 else 0

end MatrixTransposer.UnixSockIpcClient
