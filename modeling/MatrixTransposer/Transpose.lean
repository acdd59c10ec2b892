import MatrixTransposer.Lib.WorkerPool
import Mathlib.Data.UInt
import Mathlib.Tactic.Common

/-!
# `TransposeNaive`, `TransposeTiledMultiThreaded` and `MatricesAreEqual`

Memory is a map from word addresses to 64-bit words; a pointer is the address of its first word. The
loops count in `uint32_t` and every index is computed in `uint32_t`, so all of it wraps at `2^32`.
-/

namespace MatrixTransposer

abbrev Memory := Nat → UInt64

/-- The values of `i` in `for (uint32_t i = start; i < stop; i++)`. -/
def upTo (start stop : UInt32) : List UInt32 :=
  (List.range' start.toNat (stop.toNat - start.toNat)).map UInt32.ofNat

/-- The values of `idx` in `for (size_t idx = start; idx < size; idx += step)`. The vectors it runs
over have fewer than `2^33` elements and the step is a `uint32_t`, so `size_t` does not wrap. -/
def strided (size step start : Nat) : List Nat :=
  if start < size ∧ 0 < step then start :: strided size step (start + step) else []
termination_by size - start

/-- The indices of one iteration of the innermost loop, `dst[dstIndex] = src[srcIndex]`. -/
structure Copy where
  srcIndex : UInt32
  dstIndex : UInt32
  deriving DecidableEq

def copyOf (rowCount colCount i j : UInt32) : Copy :=
  { srcIndex := i * colCount + j, dstIndex := j * rowCount + i }

/-- The cells a copy touches, given the two pointers. -/
def Copy.assign (src dst : Nat) (c : Copy) : Lib.Assign Nat :=
  { target := dst + c.dstIndex.toNat, source := src + c.srcIndex.toNat }

def transposeNaive (src dst : Nat) (rowCount colCount : UInt32) (mem : Memory) : Memory :=
  (upTo 0 rowCount).foldl (fun mem i =>
    (upTo 0 colCount).foldl (fun mem j =>
      ((copyOf rowCount colCount i j).assign src dst).run mem) mem) mem

def matricesAreEqual (src dst : Nat) (rowCount colCount : UInt32) (mem : Memory) : Bool :=
  (upTo 0 (rowCount * colCount)).all fun i => mem (src + i.toNat) == mem (dst + i.toNat)

/-! ## The tiled transposition -/

structure Block where
  iStart : UInt32
  iEnd : UInt32
  jStart : UInt32
  jEnd : UInt32
  deriving DecidableEq

/-- The value-initialised element of `std::vector<Block>`. -/
def Block.zero : Block := { iStart := 0, iEnd := 0, jStart := 0, jEnd := 0 }

def numBlocks (count tileSize : UInt32) : UInt32 := (count + tileSize - 1) / tileSize

/-- The declarations `uint32_t iEnd = iStart + tileSize, rowCount;` and its twin declare a second,
unused variable. They do not bound the end of the block by the dimension. -/
def tileBlock (tileSize bi bj : UInt32) : Block :=
  let iStart := bi * tileSize
  let jStart := bj * tileSize
  { iStart := iStart, iEnd := iStart + tileSize, jStart := jStart, jEnd := jStart + tileSize }

def tileBlocks (rowCount colCount tileSize : UInt32) : List Block :=
  (upTo 0 (numBlocks colCount tileSize)).flatMap fun bj =>
    (upTo 0 (numBlocks rowCount tileSize)).map fun bi => tileBlock tileSize bi bj

/-- The vector starts out with as many value-initialised blocks as there will be pushed ones. -/
def blocks (rowCount colCount tileSize : UInt32) : List Block :=
  List.replicate (numBlocks rowCount tileSize * numBlocks colCount tileSize).toNat Block.zero ++
    tileBlocks rowCount colCount tileSize

def blockCopies (rowCount colCount : UInt32) (block : Block) : List Copy :=
  (upTo block.iStart block.iEnd).flatMap fun i =>
    (upTo block.jStart block.jEnd).map fun j => copyOf rowCount colCount i j

def workerCopies (rowCount colCount tileSize numThreads t : UInt32) : List Copy :=
  let blocks := blocks rowCount colCount tileSize
  (strided blocks.length numThreads.toNat t.toNat).flatMap fun idx =>
    blockCopies rowCount colCount (blocks.getD idx Block.zero)

/-- The pool of `TransposeTiledMultiThreaded` once its threads are started: each of the `numThreads`
workers has its copies before it. A task is a copy, performed in one step. -/
def tiledPool (src dst : Nat) (rowCount colCount tileSize numThreads : UInt32) (mem : Memory) :
    Lib.Pool UInt32 (Lib.Assign Nat) Memory where
  store := mem
  todo t :=
    if t < numThreads then
      (workerCopies rowCount colCount tileSize numThreads t).map (Copy.assign src dst)
    else []

/-- The threads of the pool, interleaved copy by copy. -/
def tiledMachine : Lib.Machine (Lib.Pool UInt32 (Lib.Assign Nat) Memory) UInt32 :=
  Lib.Pool.machine Lib.Assign.run

end MatrixTransposer
