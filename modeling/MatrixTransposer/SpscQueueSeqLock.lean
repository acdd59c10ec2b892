import MatrixTransposer.Lib.BoundedFifo
import MatrixTransposer.SpscQueue

/-!
# `SpscQueueSeqLock`

The queue the clients send their requests on. `Enqueue` writes its slot and its head between two
increments of the sequence counter `seq`; `Dequeue` gives up when it finds the queue empty, when it
finds the counter odd, and when the counter has moved while it read its slot. Again a call is a
sequence of single accesses, local arithmetic belonging to the access before it.
-/

namespace MatrixTransposer.SpscQueueSeqLock

structure QueueData extends QueueSlots where
  seq : UInt64

namespace QueueData

/-- `seq.fetch_add(1)`, which wraps at the size of the counter. -/
def fetchAddSeq (q : QueueData) : QueueData := { q with seq := q.seq + 1 }

def storeSlot (q : QueueData) (index : UInt64) (item : UInt32) : QueueData :=
  { q with toQueueSlots := q.toQueueSlots.storeSlot index item }

def storeHead (q : QueueData) (head : UInt64) : QueueData :=
  { q with toQueueSlots := q.toQueueSlots.storeHead head }

def storeTail (q : QueueData) (tail : UInt64) : QueueData :=
  { q with toQueueSlots := q.toQueueSlots.storeTail tail }

end QueueData

/-- Where the producer stands inside `Enqueue`, named after the access it makes next; the consumer's
`DequeuePc` is named in the same way. -/
inductive EnqueuePc where
  | idle
  | loadTail (item : UInt32) (head nextHead : UInt64)
  | openSeq (item : UInt32) (head nextHead : UInt64)
  | storeSlot (item : UInt32) (head nextHead : UInt64)
  | storeHead (item : UInt32) (nextHead : UInt64)
  | closeSeq (item : UInt32)
  deriving DecidableEq

inductive DequeuePc where
  | idle
  | loadTail (head : UInt64)
  | loadSeqStart (tail : UInt64)
  | loadSlot (tail seqStart : UInt64)
  | loadSeqEnd (seqStart : UInt64) (item : UInt32) (nextTail : UInt64)
  | storeTail (item : UInt32) (nextTail : UInt64)
  deriving DecidableEq

structure State where
  data : QueueData
  producer : EnqueuePc
  consumer : DequeuePc

/-- A call of one of the two methods makes its first access, or a running call its next one. -/
inductive Action where
  | enqueue (item : UInt32)
  | producer
  | dequeue
  | consumer
  deriving DecidableEq

/-- The state the producer's constructor leaves, except that the counter may start anywhere: the
constructor zero-fills it. -/
def initial (seq : UInt64) : State :=
  { data := { QueueSlots.zero with seq := seq }, producer := .idle, consumer := .idle }

def enqueueStep (data : QueueData) : EnqueuePc → Option (QueueData × EnqueuePc)
  | .idle => none
  | .loadTail item head nextHead =>
      if nextHead = data.tail then some (data, .idle)  -- return false
      else some (data, .openSeq item head nextHead)
  | .openSeq item head nextHead => some (data.fetchAddSeq, .storeSlot item head nextHead)
  | .storeSlot item head nextHead => some (data.storeSlot head item, .storeHead item nextHead)
  | .storeHead item nextHead => some (data.storeHead nextHead, .closeSeq item)
  | .closeSeq _ => some (data.fetchAddSeq, .idle)  -- return true

def dequeueStep (capacity : UInt64) (data : QueueData) : DequeuePc → Option (QueueData × DequeuePc)
  | .idle => none
  | .loadTail head =>
      if data.tail = head then some (data, .idle)  -- return false
      else some (data, .loadSeqStart data.tail)
  | .loadSeqStart tail =>
      if data.seq % 2 ≠ 0 then some (data, .idle)  -- return false
      else some (data, .loadSlot tail data.seq)
  | .loadSlot tail seqStart =>
      some (data, .loadSeqEnd seqStart (data.buffer tail.toNat) (nextIndex capacity tail))
  | .loadSeqEnd seqStart item nextTail =>
      if seqStart = data.seq then some (data, .storeTail item nextTail)
      else some (data, .idle)  -- return false
  | .storeTail _ nextTail => some (data.storeTail nextTail, .idle)  -- return true

def step (capacity : UInt64) (s : State) : Action → Option State
  | .enqueue item =>
      if s.producer = .idle then
        some { s with producer := .loadTail item s.data.head (nextIndex capacity s.data.head) }
      else none
  | .producer => (enqueueStep s.data s.producer).map fun (data, pc) =>
      { s with data := data, producer := pc }
  | .dequeue =>
      if s.consumer = .idle then some { s with consumer := .loadTail s.data.head } else none
  | .consumer => (dequeueStep capacity s.data s.consumer).map fun (data, pc) =>
      { s with data := data, consumer := pc }

def machine (capacity : UInt64) : Lib.Machine State Action where
  init s := s = initial 0
  step := step capacity

/-- The answer a call returns with this access, if it returns. -/
def returns (s : State) : Action → List (Lib.FifoOp UInt32)
  | .producer =>
      match s.producer with
      | .loadTail item _ nextHead =>
          if nextHead = s.data.tail then [.enqueue item false] else []
      | .closeSeq item => [.enqueue item true]
      | _ => []
  | .consumer =>
      match s.consumer with
      | .loadTail head => if s.data.tail = head then [.dequeue none] else []
      | .loadSeqStart _ => if s.data.seq % 2 ≠ 0 then [.dequeue none] else []
      | .loadSeqEnd seqStart _ _ => if seqStart = s.data.seq then [] else [.dequeue none]
      | .storeTail item _ => [.dequeue (some item)]
      | _ => []
  | _ => []

/-- The producer is between its two increments of the counter. -/
def inSection : EnqueuePc → Bool
  | .storeSlot .. | .storeHead .. | .closeSeq .. => true
  | _ => false

end MatrixTransposer.SpscQueueSeqLock
