import MatrixTransposer.SharedMemoryObjects
import MatrixTransposer.TransposeClient

/-!
# The names of the shared-memory objects

Each class that keeps its data in a `SharedMemory` composes the name from the kind of the object,
the process identifier of its owner and a suffix. A `std::string` holds arbitrary bytes; a string
here holds arbitrary characters, of which the first 256 stand for the bytes. No part of the program
sets a locale, so a stream writes a `uint32_t` in decimal digits and nothing else.
-/

namespace MatrixTransposer

/-- `oss << opening << number << "}" << rest`. -/
def shmObjectName (opening : String) (number : UInt32) (rest : String) : String :=
  opening ++ toString number ++ "\x7d" ++ rest

def SharedMatrixBuffer.createShmObjectName (ownerPid k : UInt32) (nameSuffix : String) : String :=
  "mat_buff_uid\x7b" ++ toString ownerPid ++ "\x7d_k\x7b" ++ toString k ++ "\x7d" ++ nameSuffix

def FutexSignaller.createShmObjectName (ownerPid : UInt32) (nameSuffix : String) : String :=
  shmObjectName "futex_uid\x7b" ownerPid nameSuffix

/-- `SpscQueueRingBuffer` composes the same name. To the namespace both queues are of one kind; the
client and the server use this one only. -/
def SpscQueueSeqLock.createShmObjectName (ownerPid : UInt32) (nameSuffix : String) : String :=
  shmObjectName "spsc_queue_buffer_uid\x7b" ownerPid nameSuffix

/-- The objects that a client owns. -/
inductive ClientObject where
  | matrixBuffer (vector : TransposeClient.BufferVector) (bufferIndex : UInt32)
  | requestQueue
  | transposeReadyFutex
  deriving DecidableEq

def ClientObject.shmObjectName (clientPid : UInt32) : ClientObject → String
  | .matrixBuffer vector bufferIndex =>
      SharedMatrixBuffer.createShmObjectName clientPid bufferIndex vector.nameSuffix
  | .requestQueue => SpscQueueSeqLock.createShmObjectName clientPid reqQueueNameSuffix
  | .transposeReadyFutex => FutexSignaller.createShmObjectName clientPid ""

end MatrixTransposer
