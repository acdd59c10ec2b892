import MatrixTransposer.ClientContext
import Mathlib.Logic.Function.Basic

/-!
# `transpose_client`

The buffers that the client's `main` constructs, and the loop at its end that verifies the results.
The loops count in `int` and compare with the `uint32_t` number of buffers.
-/

namespace MatrixTransposer.TransposeClient

def trGoldenMatrixBufNameSuffix : String := "_tr_gold"

/-- The vectors of the client's workspace. -/
inductive BufferVector where
  | matrixBuffers
  | matrixBuffersTr
  | matrixBuffersTrReference
  deriving DecidableEq

def BufferVector.nameSuffix : BufferVector → String
  | .matrixBuffers => matrixBufNameSuffix
  | .matrixBuffersTr => trMatrixBufNameSuffix
  | .matrixBuffersTrReference => trGoldenMatrixBufNameSuffix

abbrev ClientBuffers := BufferVector → List SharedMatrixBuffer

/-- `push_back` of a new buffer, unless its constructor throws. -/
def pushBuffer (fails : BufferVector → UInt32 → Bool) (clientPid m n : UInt32)
    (buffers : ClientBuffers) (push : BufferVector × UInt32) : Option ClientBuffers :=
  let (vector, bufferIndex) := push
  (SharedMatrixBuffer.construct (fails vector bufferIndex) clientPid m n bufferIndex
    vector.nameSuffix).map fun buffer =>
      Function.update buffers vector (buffers vector ++ [buffer])

def pushes (k : UInt32) : List (BufferVector × UInt32) :=
  (upTo 0 k).flatMap fun bufferIndex => [(.matrixBuffers, bufferIndex),
    (.matrixBuffersTr, bufferIndex), (.matrixBuffersTrReference, bufferIndex)]

/-- `none` when a constructor throws, and when the language does not say what happens: a shift of
`1UL` by 64 or more, or a counter that leaves `int`. -/
def constructBuffers (fails : BufferVector → UInt32 → Bool) (clientPid m n k : UInt32) :
    Option ClientBuffers :=
  if k = 0 ∨ (m < 64 ∧ n < 64 ∧ k < 2 ^ 31) then
    (pushes k).foldlM (pushBuffer fails clientPid m n) fun _ => []
  else none

/-- The addresses at which the buffers are mapped. No two mappings of a process overlap. -/
structure Mappings (buffers : ClientBuffers) where
  rawPointer : SharedMatrixBuffer → Nat
  apart : ∀ v v', ∀ a ∈ buffers v, ∀ b ∈ buffers v', a ≠ b →
    rawPointer a + a.mappedElements ≤ rawPointer b ∨ rawPointer b + b.mappedElements ≤ rawPointer a

structure Verification where
  mem : Memory
  output : List String
  errorFound : Bool

/-- The status `main` exits with. -/
def Verification.status (v : Verification) : Nat := if v.errorFound then 1 else 0

section Verify

variable (rawPointer : SharedMatrixBuffer → Nat) (clientPid m n : UInt32)

/-- The shifts of `1` are `int`s that become `uint32_t` arguments. -/
def verifyBuffer (matrix tr reference : SharedMatrixBuffer) (bufferIndex : UInt32)
    (v : Verification) : Verification :=
  let mem := transposeNaive (rawPointer matrix) (rawPointer reference) (1 <<< m) (1 <<< n) v.mem
  if matricesAreEqual (rawPointer tr) (rawPointer reference) (1 <<< m) (1 <<< n) mem then
    { v with mem := mem }
  else
    { mem := mem, errorFound := true
      output := v.output ++ [s!"Client {clientPid}: ERROR in buffer {bufferIndex}"] }

/-- `none` when a vector has no buffer at the index. -/
def verifyIndex (buffers : ClientBuffers) (v : Verification) (bufferIndex : UInt32) :
    Option Verification :=
  match (buffers .matrixBuffers)[bufferIndex.toNat]?,
    (buffers .matrixBuffersTr)[bufferIndex.toNat]?,
    (buffers .matrixBuffersTrReference)[bufferIndex.toNat]? with
  | some matrix, some tr, some reference =>
      some (verifyBuffer rawPointer clientPid m n matrix tr reference bufferIndex v)
  | _, _, _ => none

def verify (buffers : ClientBuffers) (k : UInt32) (mem : Memory) : Option Verification :=
  (upTo 0 k).foldlM (verifyIndex rawPointer clientPid m n buffers)
    { mem := mem, output := [], errorFound := false }

end Verify

end MatrixTransposer.TransposeClient
