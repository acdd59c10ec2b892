import MatrixTransposer.Lib.Calls
import MatrixTransposer.SpscQueueRingBuffer
import MatrixTransposer.SpscQueueSeqLock

/-!
# Calls without overlap

A call of a queue whose other side does not move in the meantime: the first access, then the others
until the call returns. The longest call of the ring buffer makes four accesses, the longest of the
sequence lock six.
-/

namespace MatrixTransposer

namespace SpscQueueRingBuffer

def call (capacity : UInt64) (s : State) :
    Lib.FifoCall UInt32 → Option (State × Lib.FifoOp UInt32)
  | .enqueue item =>
      (step capacity s (.enqueue item)).bind ((machine capacity).finish returns .producer 3)
  | .dequeue => (step capacity s .dequeue).bind ((machine capacity).finish returns .consumer 3)

end SpscQueueRingBuffer

namespace SpscQueueSeqLock

def call (capacity : UInt64) (s : State) :
    Lib.FifoCall UInt32 → Option (State × Lib.FifoOp UInt32)
  | .enqueue item =>
      (step capacity s (.enqueue item)).bind ((machine capacity).finish returns .producer 5)
  | .dequeue => (step capacity s .dequeue).bind ((machine capacity).finish returns .consumer 5)

end SpscQueueSeqLock

end MatrixTransposer
