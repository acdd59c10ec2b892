import MatrixTransposer.Lib.Machine
import Mathlib.Logic.Function.Basic

/-!
# `FutexSignaller`

The one-bit signal by which the server tells a client that its matrix is ready. Any number of
threads share the word and call `Wait` and `Wake` on it. An atomic step is a compare-exchange or a
system call; of the kernel we use that `FUTEX_WAIT` compares and goes to sleep in one step, that
`FUTEX_WAKE` with `INT_MAX` wakes every sleeper, and that a sleeper may wake for no reason.
-/

namespace MatrixTransposer.FutexSignaller

/-- Where a thread stands, named after what it does next. -/
inductive ThreadPc where
  | idle
  | waitExchange
  | waitCall
  | asleep
  | wakeExchange
  | wakeCall
  deriving DecidableEq

structure State (ι : Type*) where
  word : UInt32
  pc : ι → ThreadPc

/-- A thread calls one of the two methods, or runs on inside its call. -/
inductive Action (ι : Type*) where
  | wait (thread : ι)
  | wake (thread : ι)
  | run (thread : ι)
  /-- A spurious wake-up. -/
  | interrupt (thread : ι)

/-- `FUTEX_WAIT` returns, and the loop of `Wait` goes round. -/
def awaken : ThreadPc → ThreadPc
  | .asleep => .waitExchange
  | pc => pc

variable {ι : Type*} [DecidableEq ι]

def State.setPc (s : State ι) (thread : ι) (pc : ThreadPc) : State ι :=
  { s with pc := Function.update s.pc thread pc }

/-- The word as the waiter's constructor leaves it, nobody inside a call. -/
def initial : State ι := { word := 0, pc := fun _ => .idle }

def step (s : State ι) : Action ι → Option (State ι)
  | .wait thread => if s.pc thread = .idle then some (s.setPc thread .waitExchange) else none
  | .wake thread => if s.pc thread = .idle then some (s.setPc thread .wakeExchange) else none
  | .run thread =>
      match s.pc thread with
      | .idle | .asleep => none
      | .waitExchange =>
          -- compare_exchange_strong(1, 0), and `Wait` returns if it succeeds
          if s.word = 1 then some ({ s with word := 0 }.setPc thread .idle)
          else some (s.setPc thread .waitCall)
      | .waitCall =>
          -- FUTEX_WAIT for the value 0, EAGAIN for any other
          if s.word = 0 then some (s.setPc thread .asleep)
          else some (s.setPc thread .waitExchange)
      | .wakeExchange =>
          -- compare_exchange_strong(0, 1), and no system call if it fails
          if s.word = 0 then some ({ s with word := 1 }.setPc thread .wakeCall)
          else some (s.setPc thread .idle)
      | .wakeCall => some ({ s with pc := awaken ∘ s.pc }.setPc thread .idle)
  | .interrupt thread =>
      if s.pc thread = .asleep then some (s.setPc thread .waitExchange) else none

def machine (ι : Type*) [DecidableEq ι] : Lib.Machine (State ι) (Action ι) where
  init s := s = initial
  step := step

inductive Signal where
  /-- The compare-exchange of a `Wake` succeeds. -/
  | raised
  /-- A `Wait` leaves its loop. -/
  | consumed
  deriving DecidableEq

/-- The signal that is raised or consumed with this step, if one is. -/
def signals (s : State ι) : Action ι → List Signal
  | .run thread =>
      match s.pc thread with
      | .waitExchange => if s.word = 1 then [.consumed] else []
      | .wakeExchange => if s.word = 0 then [.raised] else []
      | _ => []
  | _ => []

end MatrixTransposer.FutexSignaller
