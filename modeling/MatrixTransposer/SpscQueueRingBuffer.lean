import MatrixTransposer.Lib.BoundedFifo
import MatrixTransposer.SpscQueue

/-!
# `SpscQueueRingBuffer`

One producer calls `Enqueue`, one consumer calls `Dequeue`. A call is a sequence of single loads and
stores of the shared `QueueData`; between two of them the other side may move. Local arithmetic
belongs to the access before it, so a call returns with its last access.
-/

namespace MatrixTransposer.SpscQueueRingBuffer

/-- Where the producer stands inside `Enqueue`, named after the access it makes next; the consumer's
`DequeuePc` is named in the same way. -/
inductive EnqueuePc where
  | idle
  | loadTail (item : UInt32) (head nextHead : UInt64)
  | storeSlot (item : UInt32) (head nextHead : UInt64)
  | storeHead (item : UInt32) (nextHead : UInt64)
  deriving DecidableEq

inductive DequeuePc where
  | idle
  | loadHead (tail : UInt64)
  | loadSlot (tail : UInt64)
  | storeTail (tail : UInt64) (item : UInt32)
  deriving DecidableEq

structure State where
  data : QueueSlots
  producer : EnqueuePc
  consumer : DequeuePc

/-- A call of one of the two methods makes its first access, or a running call its next one. -/
inductive Action where
  | enqueue (item : UInt32)
  | producer
  | dequeue
  | consumer
  deriving DecidableEq

def initial : State := { data := .zero, producer := .idle, consumer := .idle }

def enqueueStep (data : QueueSlots) : EnqueuePc → Option (QueueSlots × EnqueuePc)
  | .idle => none
  | .loadTail item head nextHead =>
      if nextHead = data.tail then some (data, .idle)  -- return false
      else some (data, .storeSlot item head nextHead)
  | .storeSlot item head nextHead => some (data.storeSlot head item, .storeHead item nextHead)
  | .storeHead _ nextHead => some (data.storeHead nextHead, .idle)  -- return true

def dequeueStep (capacity : UInt64) (data : QueueSlots) :
    DequeuePc → Option (QueueSlots × DequeuePc)
  | .idle => none
  | .loadHead tail =>
      if tail = data.head then some (data, .idle)  -- return false
      else some (data, .loadSlot tail)
  | .loadSlot tail => some (data, .storeTail tail (data.buffer tail.toNat))
  | .storeTail tail _ => some (data.storeTail (nextIndex capacity tail), .idle)  -- return true

def step (capacity : UInt64) (s : State) : Action → Option State
  | .enqueue item =>
      if s.producer = .idle then
        some { s with producer := .loadTail item s.data.head (nextIndex capacity s.data.head) }
      else none
  | .producer => (enqueueStep s.data s.producer).map fun (data, pc) =>
      { s with data := data, producer := pc }
  | .dequeue =>
      if s.consumer = .idle then some { s with consumer := .loadHead s.data.tail } else none
  | .consumer => (dequeueStep capacity s.data s.consumer).map fun (data, pc) =>
      { s with data := data, consumer := pc }

def machine (capacity : UInt64) : Lib.Machine State Action where
  init s := s = initial
  step := step capacity

/-- The answer a call returns with this access, if it returns. -/
def returns (s : State) : Action → List (Lib.FifoOp UInt32)
  | .producer =>
      match s.producer with
      | .loadTail item _ nextHead =>
          if nextHead = s.data.tail then [.enqueue item false] else []
      | .storeHead item _ => [.enqueue item true]
      | _ => []
  | .consumer =>
      match s.consumer with
      | .loadHead tail => if tail = s.data.head then [.dequeue none] else []
      | .storeTail _ item => [.dequeue (some item)]
      | _ => []
  | _ => []

end MatrixTransposer.SpscQueueRingBuffer
