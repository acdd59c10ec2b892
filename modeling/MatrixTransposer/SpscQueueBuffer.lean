import MatrixTransposer.SpscQueueRingBuffer
import MatrixTransposer.SpscQueueSeqLock

/-!
# The memory of the queues

How many bytes the constructors map, and where in them the slots are that the calls access.
`QueueData` ends with the flexible array of the slots, which starts at `sizeof(QueueData)`: each of
its other members has a cache line of 64 bytes.
-/

namespace MatrixTransposer

/-- The cache line size as `CalculateBufferSize` uses it. -/
def lineSize (cacheLineSize : UInt64) : UInt64 := if cacheLineSize = 0 then 64 else cacheLineSize

/-- What both `CalculateBufferSize` return. -/
def bufferSize (sizeofQueueData capacity cacheLineSize : UInt64) : UInt64 :=
  ((sizeofQueueData + capacity * 4) / lineSize cacheLineSize + 1) * lineSize cacheLineSize

/-- The bytes of a slot are among the mapped ones. An address past the last byte does not wrap. -/
def SlotInRegion (sizeofQueueData size slot : UInt64) : Prop :=
  sizeofQueueData.toNat + slot.toNat * 4 + 4 ≤ size.toNat

instance (sizeofQueueData size slot : UInt64) :
    Decidable (SlotInRegion sizeofQueueData size slot) :=
  inferInstanceAs (Decidable (_ ≤ _))

/-- No operation of `CalculateBufferSize` wraps. -/
def BufferSizeFits (sizeofQueueData capacity cacheLineSize : UInt64) : Prop :=
  ((sizeofQueueData.toNat + capacity.toNat * 4) / (lineSize cacheLineSize).toNat + 1) *
    (lineSize cacheLineSize).toNat < 2 ^ 64

instance (sizeofQueueData capacity cacheLineSize : UInt64) :
    Decidable (BufferSizeFits sizeofQueueData capacity cacheLineSize) :=
  inferInstanceAs (Decidable (_ < _))

namespace SpscQueueRingBuffer

def sizeofQueueData : UInt64 := 128

def calculateBufferSize (capacity cacheLineSize : UInt64) : UInt64 :=
  bufferSize sizeofQueueData capacity cacheLineSize

/-- The slots that the next accesses of the two sides read or write. -/
def accessedSlots (s : State) : List UInt64 :=
  (match s.producer with
    | .storeSlot _ head _ => [head]
    | _ => []) ++
  match s.consumer with
    | .loadSlot tail => [tail]
    | _ => []

end SpscQueueRingBuffer

namespace SpscQueueSeqLock

def sizeofQueueData : UInt64 := 192

def calculateBufferSize (capacity cacheLineSize : UInt64) : UInt64 :=
  bufferSize sizeofQueueData capacity cacheLineSize

/-- The slots that the next accesses of the two sides read or write. -/
def accessedSlots (s : State) : List UInt64 :=
  (match s.producer with
    | .storeSlot _ head _ => [head]
    | _ => []) ++
  match s.consumer with
    | .loadSlot tail _ => [tail]
    | _ => []

end SpscQueueSeqLock

end MatrixTransposer
