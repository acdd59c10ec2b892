import MatrixTransposer.ServerMain
import MatrixTransposer.TransposeClient

/-!
# The start of `transpose_client`

The arguments of the client's `main`, and what its constructors write into the shared matrices.
-/

namespace MatrixTransposer

namespace SharedMatrixBuffer

variable (rawPointer : Nat) (mem : Memory)

/-- `GetElementCount` -/
def elementCount (buffer : SharedMatrixBuffer) : UInt32 := buffer.numRows * buffer.numColumns

/-- `dist` is what the distribution answers in each iteration. -/
def fillWithRandom (buffer : SharedMatrixBuffer) (dist : Nat → UInt64) : Memory :=
  (List.range buffer.elementCount.toNat).foldl
    (fun mem i => Function.update mem (rawPointer + i) (dist i)) mem

/-- `memset` of `GetBufferSizeInBytes()` bytes, which are whole words. -/
def fillWithZero (buffer : SharedMatrixBuffer) : Memory := fun a =>
  if rawPointer ≤ a ∧ a < rawPointer + buffer.mappedElements then 0 else mem a

end SharedMatrixBuffer

namespace TransposeClient

structure Arguments where
  m : UInt32
  n : UInt32
  k : UInt32
  requestRepetitions : UInt32
  deriving DecidableEq

/-- The arguments begin with the name of the program. -/
def processArguments (arguments : List String) : Except String Arguments :=
  match arguments with
  | [_] => .ok { m := 4, n := 4, k := 8, requestRepetitions := 1 }
  | [_, m, n, k, repetitions] =>
      .ok { m := (atoi m).toUInt32, n := (atoi n).toUInt32, k := (atoi k).toUInt32,
            requestRepetitions := (atoi repetitions).toUInt32 }
  | _ => .error ("Usage: " ++ arguments.headD "" ++ " <m> <n> <k> <repetitions>")

/-- What the constructor of a buffer writes into it. -/
def fillBuffer (rawPointer : SharedMatrixBuffer → Nat) (dist : UInt32 → Nat → UInt64)
    (mem : Memory) (vector : BufferVector) (buffer : SharedMatrixBuffer) : Memory :=
  match vector with
  | .matrixBuffers =>
      buffer.fillWithRandom (rawPointer buffer) mem (dist buffer.bufferIndex)
  | .matrixBuffersTr | .matrixBuffersTrReference => buffer.fillWithZero (rawPointer buffer) mem

/-- The buffers are filled as they are constructed. -/
def fillBuffers (rawPointer : SharedMatrixBuffer → Nat) (dist : UInt32 → Nat → UInt64)
    (buffers : ClientBuffers) (k : UInt32) (mem : Memory) : Memory :=
  (pushes k).foldl (fun mem push =>
    match (buffers push.1)[push.2.toNat]? with
    | some buffer => fillBuffer rawPointer dist mem push.1 buffer
    | none => mem) mem

end TransposeClient

end MatrixTransposer
