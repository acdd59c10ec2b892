import MatrixTransposer.UnixSockIpcServer

/-!
# The life of a connection

What happens on a connection of `ServerThread` from its `accept` to its `close`. The kernel gives a
descriptor again after it has been closed, so the ledger of a descriptor starts anew with every
`accept` that returns it.
-/

namespace MatrixTransposer.UnixSockIpcServer

inductive EventKind where
  | opened
  | arrived (bytes : List UInt8)
  | received (bytes : List UInt8)
  | handled (message : List UInt8)
  | closed

structure ConnectionEvent where
  fd : Nat
  kind : EventKind

/-- What a step does to a connection. -/
def connectionEvents (size baseFd : Nat) (s : State) : Action → List ConnectionEvent
  | .arrive fd bytes => [⟨fd, .arrived bytes⟩]
  | .thread (.accepted fd) => [⟨fd, .opened⟩]
  | .thread (.data count) =>
      match s.pc with
      | .recv fd _ _ =>
          match s.connections fd with
          | some c => [⟨fd, .received (c.unread.take count)⟩]
          | none => []
      | _ => []
  | .thread .failed =>
      match s.pc with
      | .recv fd _ _ => [⟨fd, .closed⟩]
      | _ => []
  | .thread .none =>
      match s.pc with
      | .dispatch (e :: _) => if e.hangUp then [⟨e.fd, .closed⟩] else []
      | .handle fd _ => [⟨fd, .handled (message size s)⟩]
      | .drainClose (e :: _) => if e.fd = baseFd then [] else [⟨e.fd, .closed⟩]
      | _ => []
  | _ => []

structure Ledger where
  arrived : List UInt8
  received : List UInt8
  /-- What has been received since the handler was last called for this connection. -/
  part : List UInt8
  handled : List (List UInt8)

namespace Ledger

def empty : Ledger := { arrived := [], received := [], part := [], handled := [] }

def record (l : Ledger) : EventKind → Ledger
  | .opened => empty
  | .arrived bytes => { l with arrived := l.arrived ++ bytes }
  | .received bytes => { l with received := l.received ++ bytes, part := l.part ++ bytes }
  | .handled m => { l with part := [], handled := l.handled ++ [m] }
  | .closed => l

end Ledger

/-- The ledger of the connection that the descriptor names last. -/
def ledger (fd : Nat) (os : List ConnectionEvent) : Ledger :=
  os.foldl (fun l e => if e.fd = fd then l.record e.kind else l) .empty

theorem ledger_append_self (fd : Nat) (os : List ConnectionEvent) (kind : EventKind) :
    ledger fd (os ++ [⟨fd, kind⟩]) = (ledger fd os).record kind := by
  simp [ledger]

theorem ledger_append_ne {fd fd' : Nat} (h : fd' ≠ fd) (os : List ConnectionEvent)
    (kind : EventKind) : ledger fd (os ++ [⟨fd', kind⟩]) = ledger fd os := by
  simp [ledger, h]

end MatrixTransposer.UnixSockIpcServer
