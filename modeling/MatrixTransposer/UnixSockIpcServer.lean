import MatrixTransposer.Lib.Machine
import Mathlib.Logic.Function.Basic

/-!
# `UnixSockIpcServer::ServerThread`

The socket thread and the kernel under it. A step of the thread is a test of `m_Running`, a system
call or a call of the handler; what a system call answers is part of the action. A connection is
known by its descriptor. Bytes that a peer sends before its connection is accepted arrive, for the
server, right after.
-/

namespace MatrixTransposer.UnixSockIpcServer

/-- The kernel's side of an accepted connection. -/
structure Connection where
  unread : List UInt8
  peerClosed : Bool
  deriving DecidableEq

/-- What `epoll_wait` reports about a descriptor: whether one of `EPOLLHUP`, `EPOLLERR` and
`EPOLLRDHUP` is set, and whether `EPOLLIN` is. -/
structure Event where
  fd : Nat
  hangUp : Bool
  readable : Bool
  deriving DecidableEq

inductive Pc where
  /-- The test of the main loop. -/
  | loop
  | poll
  /-- The events of the batch that are still to be looked at. -/
  | dispatch (events : List Event)
  /-- The test of the loop that assembles a message. -/
  | assemble (fd totalRead : Nat) (events : List Event)
  | recv (fd totalRead : Nat) (events : List Event)
  | handle (fd : Nat) (events : List Event)
  /-- `epoll_wait` in the loop after the main loop. -/
  | drain
  | drainClose (events : List Event)
  | exited
  deriving DecidableEq

structure State where
  connections : Nat → Option Connection
  /-- Connection requests that wait to be accepted. -/
  backlog : Nat
  running : Bool
  connectionCount : UInt32
  buffer : Nat → UInt8
  pc : Pc

inductive Reply where
  /-- The step makes no system call, or ignores its answer. -/
  | none
  | events (events : List Event)
  | accepted (fd : Nat)
  /-- `recv` returns this many bytes. -/
  | data (count : Nat)
  /-- `EAGAIN` or `EWOULDBLOCK` -/
  | again
  /-- `recv` returns 0, at the end of the stream. -/
  | endOfStream
  | failed
  deriving DecidableEq

inductive Action where
  | connect
  | arrive (fd : Nat) (bytes : List UInt8)
  | peerClose (fd : Nat)
  /-- The destructor sets `m_Running` to false. -/
  | stop
  | thread (reply : Reply)

def maxEvents : Nat := 4

/-- `epoll_wait` reports every descriptor at most once, only registered ones, and no hang-up of a
peer that has not closed. -/
def Deliverable (baseFd : Nat) (s : State) (events : List Event) : Prop :=
  events.length ≤ maxEvents ∧ (events.map Event.fd).Nodup ∧
    ∀ e ∈ events, e.fd ≠ baseFd →
      ∃ c ∈ s.connections e.fd, e.hangUp = true → c.peerClosed = true

instance (baseFd : Nat) (s : State) (events : List Event) :
    Decidable (Deliverable baseFd s events) :=
  inferInstanceAs (Decidable (_ ∧ _ ∧ _))

/-- `recv` copies bytes to `buffer + totalRead`. -/
def writeBuffer (buffer : Nat → UInt8) (totalRead : Nat) (bytes : List UInt8) : Nat → UInt8 :=
  fun i => if totalRead ≤ i then bytes.getD (i - totalRead) (buffer i) else buffer i

/-- The message that the handler is given. -/
def message (size : Nat) (s : State) : List UInt8 := (List.range size).map s.buffer

def State.setConnection (s : State) (fd : Nat) (c : Option Connection) : State :=
  { s with connections := Function.update s.connections fd c }

@[simp] theorem setConnection_pc (s : State) (fd : Nat) (c : Option Connection) :
    (s.setConnection fd c).pc = s.pc := rfl

@[simp] theorem setConnection_connections_self (s : State) (fd : Nat) (c : Option Connection) :
    (s.setConnection fd c).connections fd = c :=
  Function.update_self _ _ _

theorem setConnection_connections_of_ne (s : State) {fd fd' : Nat} (h : fd' ≠ fd)
    (c : Option Connection) : (s.setConnection fd c).connections fd' = s.connections fd' :=
  Function.update_of_ne h _ _

/-- `epoll_ctl(EPOLL_CTL_DEL)`, `close` and the decrement of the count. -/
def State.dropConnection (s : State) (fd : Nat) : State :=
  { s.setConnection fd none with connectionCount := s.connectionCount - 1 }

/-- The branch of the first event of the batch. -/
def dispatchStep (baseFd : Nat) (s : State) (e : Event) (events : List Event) :
    Reply → Option State
  | .accepted fd =>
      if e.fd = baseFd ∧ 0 < s.backlog ∧ fd ≠ baseFd ∧ s.connections fd = none then
        some { s.setConnection fd (some { unread := [], peerClosed := false }) with
          backlog := s.backlog - 1
          connectionCount := s.connectionCount + 1
          pc := .dispatch events }
      else none
  | .failed => if e.fd = baseFd then some { s with pc := .dispatch events } else none
  | .none =>
      if e.fd = baseFd then none
      else if e.hangUp then some { s.dropConnection e.fd with pc := .dispatch events }
      else if e.readable then some { s with pc := .assemble e.fd 0 events }
      else some { s with pc := .dispatch events }
  | _ => none

def recvStep (size : Nat) (s : State) (fd totalRead : Nat) (events : List Event) :
    Reply → Option State
  | .data count =>
      match s.connections fd with
      | none => none
      | some c =>
          if 0 < count ∧ count ≤ size - totalRead ∧ count ≤ c.unread.length then
            some { s.setConnection fd (some { c with unread := c.unread.drop count }) with
              buffer := writeBuffer s.buffer totalRead (c.unread.take count)
              pc := .assemble fd (totalRead + count) events }
          else none
  | .again => some { s with pc := .assemble fd totalRead events }
  | .endOfStream =>
      match s.connections fd with
      | none => none
      | some c =>
          if c.unread = [] ∧ c.peerClosed = true then
            some { s with pc := .assemble fd totalRead events }
          else none
  | .failed => some { s.dropConnection fd with pc := .handle fd events }
  | _ => none

def pollStep (baseFd : Nat) (s : State) : Reply → Option State
  | .events events =>
      if Deliverable baseFd s events then some { s with pc := .dispatch events } else none
  | .failed => some { s with pc := .drain }
  | _ => none

def drainStep (baseFd : Nat) (s : State) : Reply → Option State
  | .events [] => some { s with pc := .exited }
  | .events (e :: events) =>
      if Deliverable baseFd s (e :: events) then some { s with pc := .drainClose (e :: events) }
      else none
  | .failed => some { s with pc := .exited }
  | _ => none

def silentStep (t : State) : Reply → Option State
  | .none => some t
  | _ => none

def threadStep (size baseFd : Nat) (s : State) (reply : Reply) : Option State :=
  match s.pc with
  | .loop => silentStep { s with pc := if s.running then .poll else .drain } reply
  | .poll => pollStep baseFd s reply
  | .dispatch [] => silentStep { s with pc := .loop } reply
  | .dispatch (e :: events) => dispatchStep baseFd s e events reply
  | .assemble fd totalRead events =>
      silentStep { s with
        pc := if totalRead < size ∧ s.running = true then .recv fd totalRead events
          else .handle fd events } reply
  | .recv fd totalRead events => recvStep size s fd totalRead events reply
  | .handle _ events => silentStep { s with pc := .dispatch events } reply
  | .drain => drainStep baseFd s reply
  | .drainClose [] => silentStep { s with pc := .drain } reply
  | .drainClose (e :: events) =>
      -- the count is left as it is
      silentStep { (if e.fd = baseFd then s else s.setConnection e.fd none) with
        pc := .drainClose events } reply
  | .exited => none

def step (size baseFd : Nat) (s : State) : Action → Option State
  | .connect => some { s with backlog := s.backlog + 1 }
  | .arrive fd bytes =>
      match s.connections fd with
      | none => none
      | some c =>
          if c.peerClosed then none
          else some (s.setConnection fd (some { c with unread := c.unread ++ bytes }))
  | .peerClose fd =>
      match s.connections fd with
      | none => none
      | some c => some (s.setConnection fd (some { c with peerClosed := true }))
  | .stop => some { s with running := false }
  | .thread reply => threadStep size baseFd s reply

/-- The thread as the constructor starts it. The assembly buffer is not initialised. -/
def initial (buffer : Nat → UInt8) : State :=
  { connections := fun _ => none, backlog := 0, running := true, connectionCount := 0,
    buffer := buffer, pc := .loop }

def machine (size baseFd : Nat) : Lib.Machine State Action where
  init s := ∃ buffer, s = initial buffer
  step := step size baseFd

inductive Observation where
  | arrived (fd : Nat) (bytes : List UInt8)
  | received (fd : Nat) (bytes : List UInt8)
  | handled (fd : Nat) (message : List UInt8)

def observe (size : Nat) (s : State) : Action → List Observation
  | .arrive fd bytes => [.arrived fd bytes]
  | .thread (.data count) =>
      match s.pc with
      | .recv fd _ _ =>
          match s.connections fd with
          | some c => [.received fd (c.unread.take count)]
          | none => []
      | _ => []
  | .thread .none =>
      match s.pc with
      | .handle fd _ => [.handled fd (message size s)]
      | _ => []
  | _ => []

def arrivedOn (fd : Nat) (os : List Observation) : List UInt8 :=
  os.flatMap fun
    | .arrived fd' bytes => if fd' = fd then bytes else []
    | _ => []

def receivedOn (fd : Nat) (os : List Observation) : List UInt8 :=
  os.flatMap fun
    | .received fd' bytes => if fd' = fd then bytes else []
    | _ => []

/-- The messages that the handler has been given with this descriptor. -/
def handledOn (fd : Nat) (os : List Observation) : List (List UInt8) :=
  os.flatMap fun
    | .handled fd' m => if fd' = fd then [m] else []
    | _ => []

/-- No receive error, no closing peer and no stop. -/
def calm (s : State) : Action → Bool
  | .peerClose _ | .stop => false
  | .thread .failed =>
      match s.pc with
      | .recv .. => false
      | _ => true
  | _ => true

def calmMachine (size baseFd : Nat) : Lib.Machine State Action where
  init := (machine size baseFd).init
  step s a := if calm s a then step size baseFd s a else none

end MatrixTransposer.UnixSockIpcServer
