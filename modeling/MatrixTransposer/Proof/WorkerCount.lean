import MatrixTransposer.Proof.NaiveTranspose
import MatrixTransposer.Proof.TransposeBounds
import MatrixTransposer.ServerMain

/-!
# The worker counts that transpose

The test of `main` lets powers of two pass, and 0. With 0 the call starts no thread, returns at once
and leaves the destination as it was.
-/

namespace MatrixTransposer

variable {rowCount colCount numThreads : UInt32} {src dst : Nat}

/-- What the dispatcher relies on when it wakes a client after the call. -/
structure ComputesAll (src dst : Nat) (rowCount colCount numThreads : UInt32) : Prop where
  tiles : ∀ block ∈ tileBlocks rowCount colCount transposeTileSize, ∃ t < numThreads,
    ∃ idx ∈ strided (blocks rowCount colCount transposeTileSize).length numThreads.toNat t.toNat,
      (blocks rowCount colCount transposeTileSize)[idx]? = some block
  cells : ∀ x < rowCount.toNat * colCount.toNat, ∃ t < numThreads,
    ∃ c ∈ workerCopies rowCount colCount transposeTileSize numThreads t, c.dstIndex.toNat = x
  result : ∀ mem schedule final,
    tiledMachine.exec (tiledPool src dst rowCount colCount transposeTileSize numThreads mem)
      schedule = some final → final.Joined →
    final.store = transposeNaive src dst rowCount colCount mem

section Workers

variable (hrow : transposeTileSize.toNat ∣ rowCount.toNat)
  (hcol : transposeTileSize.toNat ∣ colCount.toNat)
  (hsize : rowCount.toNat * colCount.toNat ≤ 2 ^ 32)
  (hdisjoint : src + rowCount.toNat * colCount.toNat ≤ dst ∨
    dst + rowCount.toNat * colCount.toNat ≤ src)
include hrow hcol hsize hdisjoint

theorem computesAll_of_pos (hthreads : 0 < numThreads) :
    ComputesAll src dst rowCount colCount numThreads where
  tiles block hblock := exists_worker_of_mem_blocks hthreads (List.mem_append_right _ hblock)
  cells := by
    intro x hx
    obtain ⟨c, hc, rfl⟩ := List.mem_map.mp ((mem_dstIndex_iff hsize).mpr hx)
    obtain ⟨t, ht, hworker⟩ := (exists_worker_iff (by decide) hrow hcol hsize hthreads).mpr
      (mem_naiveCopies.mp hc)
    exact ⟨t, ht, c, hworker, rfl⟩
  result mem schedule final :=
    store_eq_transposeNaive (by decide) hrow hcol hsize hthreads hdisjoint mem

end Workers

/-- A matrix without elements has no tiles. -/
theorem tileBlocks_of_empty (hempty : rowCount = 0 ∨ colCount = 0) :
    tileBlocks rowCount colCount transposeTileSize = [] := by
  rw [List.eq_nil_iff_forall_not_mem]
  intro block hblock
  obtain ⟨bi, bj, hbi, hbj, -⟩ := mem_tileBlocks.mp hblock
  rcases hempty with rfl | rfl
  · exact UInt32.not_lt_zero hbi
  · exact UInt32.not_lt_zero hbj

theorem computesAll_of_empty (hempty : rowCount = 0 ∨ colCount = 0) :
    ComputesAll src dst rowCount colCount 0 where
  tiles block hblock := by
    rw [tileBlocks_of_empty hempty] at hblock
    cases hblock
  cells := by
    intro x hx
    rcases hempty with rfl | rfl
    · rw [UInt32.toNat_zero, Nat.zero_mul] at hx
      exact absurd hx (Nat.not_lt_zero x)
    · exact absurd hx (Nat.not_lt_zero x)
  result := by
    intro mem schedule final
    have hzero : rowCount.toNat * colCount.toNat = 0 := by
      rcases hempty with rfl | rfl
      · exact Nat.zero_mul _
      · rfl
    apply store_eq_of_mem_iff (by omega) (by omega)
    intro a
    constructor
    · rintro ⟨t, ha⟩
      simp only [tiledPool, UInt32.not_lt_zero, if_false] at ha
      cases ha
    · rintro ⟨i, j, hi, hj, -⟩
      rcases hempty with rfl | rfl
      · exact absurd hi UInt32.not_lt_zero
      · exact absurd hj UInt32.not_lt_zero

theorem not_computesAll_zero (hr : rowCount ≠ 0) (hc : colCount ≠ 0) :
    ¬ ComputesAll src dst rowCount colCount 0 := by
  intro h
  have hpos : 0 < rowCount.toNat * colCount.toNat := by
    apply Nat.mul_pos
    · exact UInt32.lt_iff_toNat_lt.mp (UInt32.pos_iff_ne_zero.mpr hr)
    · exact UInt32.lt_iff_toNat_lt.mp (UInt32.pos_iff_ne_zero.mpr hc)
  obtain ⟨t, ht, -⟩ := h.cells 0 hpos
  exact UInt32.not_lt_zero ht

/-- The matrices of a client whose buffers have been mapped have fewer than `2^32` elements. -/
theorem dispatched_size_lt {env : Environment} {ws : ServerWorkspace} {req : SubscribeRequest}
    {result : ServerWorkspace.AddResult} (hm : req.m < 32) (hn : req.n < 32)
    (hadd : ws.addClient env req = some result) (hadded : result.added = true) {b : UInt32}
    (hb : b < req.k) :
    let matrixSize := (result.workspace.clientBank result.slot).matrixSize
    matrixSize.numRows.toNat * matrixSize.numColumns.toNat < 2 ^ 32 := by
  have hctx := complete_of_addClient hadd hadded
  obtain ⟨buffer, -, hconstruct⟩ := exists_buffer hb hctx.matrixBuffers
  have hsum := SharedMatrixBuffer.add_lt_of_construct hm hn hconstruct
  rw [hctx.matrixSize]
  dsimp only
  rw [toNat_one_shiftLeft hm, toNat_one_shiftLeft hn, ← Nat.pow_add]
  exact Nat.pow_lt_pow_right (by decide) hsum

/-- **Which accepted worker counts transpose.** With a count that `main` accepts, the call for a
matrix of whole tiles processes every tile, writes every cell and, whatever the schedule, leaves the
transposed matrix, if and only if the count is a power of two or the matrix has no elements. -/
theorem computes_all_iff {hardwareConcurrency : UInt32} {arguments : List String}
    (haccepted : numWorkerThreads hardwareConcurrency arguments = .ok numThreads)
    (hrow : transposeTileSize.toNat ∣ rowCount.toNat)
    (hcol : transposeTileSize.toNat ∣ colCount.toNat)
    (hsize : rowCount.toNat * colCount.toNat ≤ 2 ^ 32)
    (hdisjoint : src + rowCount.toNat * colCount.toNat ≤ dst ∨
      dst + rowCount.toNat * colCount.toNat ≤ src) :
    ComputesAll src dst rowCount colCount numThreads ↔
      numThreads.toNat.isPowerOfTwo ∨ rowCount = 0 ∨ colCount = 0 := by
  rw [isPowerOfTwo_of_numWorkerThreads haccepted]
  by_cases hzero : numThreads = 0
  · subst hzero
    constructor
    · intro h
      right
      by_contra hne
      rw [not_or] at hne
      exact not_computesAll_zero hne.1 hne.2 h
    · rintro (hne | hempty)
      · exact absurd rfl hne
      · exact computesAll_of_empty hempty
  · have hpos := UInt32.pos_iff_ne_zero.mpr hzero
    simp only [ne_eq, hzero, not_false_eq_true, true_or, iff_true]
    exact computesAll_of_pos hrow hcol hsize hdisjoint hpos

theorem computes_all_eight : ComputesAll 0 8192 128 64 8 := by
  have haccepted : numWorkerThreads 16 ["transpose_server", "8"] = .ok 8 := by decide
  apply (computes_all_iff haccepted (by decide) (by decide) (by decide) (by decide)).mpr
  exact Or.inl ⟨3, by decide⟩

/-- A server started with an argument that is not a number. -/
theorem no_worker_accepted :
    numWorkerThreads 16 ["transpose_server", "all"] = .ok 0 ∧ ¬ ComputesAll 0 4096 64 64 0 :=
  ⟨by decide, not_computesAll_zero (by decide) (by decide)⟩

end MatrixTransposer
