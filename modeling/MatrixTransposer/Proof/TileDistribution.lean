import MatrixTransposer.Proof.Tiles

/-!
# Which worker handles which tile

Half of the vector that `TransposeTiledMultiThreaded` hands out is empty blocks, and the workers
start their strides at the front of it. Every pushed block still has one worker, that of the
remainder of its shifted index, and the shift costs no worker more than one tile.
-/

namespace MatrixTransposer

variable {rowCount colCount tileSize numThreads : UInt32}

/-! ## The strided loop -/

section Strided

variable {size bound step start : Nat}

theorem strided_of_lt (hlt : start < size) (hstep : 0 < step) :
    strided size step start = start :: strided size step (start + step) := by
  rw [strided, if_pos ⟨hlt, hstep⟩]

theorem strided_of_le (hle : size ≤ start) : strided size step start = [] := by
  rw [strided, if_neg fun hin => Nat.not_lt.mpr hle hin.1]

theorem nodup_strided : (strided size step start).Nodup := by
  fun_induction strided size step start with
  | case1 start hlt ih =>
      refine List.nodup_cons.mpr ⟨?_, ih⟩
      intro hmem
      have hle := ((mem_strided hlt.2).mp hmem).1
      omega
  | case2 => exact List.nodup_nil

theorem length_strided (hstep : 0 < step) :
    (strided size step start).length = (size - start + (step - 1)) / step := by
  fun_induction strided size step start with
  | case1 start hlt ih =>
      -- what is left after the first index is either too short or one step shorter
      have hsum : ∃ rest, size - start + (step - 1) = rest + step ∧
          (size - (start + step) + (step - 1)) / step = rest / step := by
        by_cases hlast : size ≤ start + step
        · refine ⟨size - start - 1, by omega, ?_⟩
          rw [Nat.div_eq_of_lt (by omega), Nat.div_eq_of_lt (by omega)]
        · exact ⟨size - (start + step) + (step - 1), by omega, rfl⟩
      obtain ⟨rest, hsum, hrest⟩ := hsum
      rw [List.length_cons, ih, hsum, hrest, Nat.add_div_right _ hstep]
  | case2 start hlt =>
      have hout : size ≤ start := Nat.not_lt.mp fun hin => hlt ⟨hin, hstep⟩
      rw [Nat.sub_eq_zero_of_le hout, Nat.zero_add, Nat.div_eq_of_lt (by omega), List.length_nil]

theorem length_strided_of_lt (hstart : start < step) :
    (strided size step start).length = (size + (step - 1 - start)) / step := by
  rw [length_strided (by omega)]
  by_cases hin : start ≤ size
  · rw [show size - start + (step - 1) = size + (step - 1 - start) by omega]
  · rw [Nat.div_eq_of_lt (by omega), Nat.div_eq_of_lt (by omega)]

/-- Below a bound the loop visits what the loop up to that bound visits. -/
theorem countP_lt_strided (hstep : 0 < step) (hbound : bound ≤ size) :
    (strided size step start).countP (· < bound) = (strided bound step start).length := by
  fun_induction strided size step start with
  | case1 start hlt ih =>
      rw [List.countP_cons, ih]
      by_cases hin : start < bound
      · rw [strided_of_lt hin hstep, List.length_cons, if_pos (decide_eq_true hin)]
      · rw [strided_of_le (Nat.not_lt.mp hin), strided_of_le (by omega),
          if_neg (by simpa using hin)]
        rfl
  | case2 start hlt =>
      have hout : size ≤ start := Nat.not_lt.mp fun hin => hlt ⟨hin, hstep⟩
      rw [strided_of_le (by omega)]
      rfl

/-- The second half of the indices is shared out evenly up to one index, wherever it begins. -/
theorem countP_ge_strided (hstart : start < step) :
    bound / step ≤ (strided (bound + bound) step start).countP (bound ≤ ·) ∧
      (strided (bound + bound) step start).countP (bound ≤ ·) ≤ bound / step + 1 := by
  have hstep : 0 < step := by omega
  have hsplit := List.length_eq_countP_add_countP (fun idx => decide (idx < bound))
    (l := strided (bound + bound) step start)
  simp only [decide_eq_true_eq, Nat.not_lt] at hsplit
  rw [countP_lt_strided hstep (Nat.le_add_right bound bound), length_strided_of_lt hstart,
    length_strided_of_lt hstart, Nat.add_assoc, Nat.add_div hstep] at hsplit
  split at hsplit <;> omega

end Strided

/-! ## What a worker takes from the vector -/

/-- The blocks that the loop of a worker takes from the vector, in its order. -/
def workerBlocks (rowCount colCount tileSize numThreads t : UInt32) : List Block :=
  (strided (blocks rowCount colCount tileSize).length numThreads.toNat t.toNat).map fun idx =>
    (blocks rowCount colCount tileSize).getD idx Block.zero

theorem workerCopies_eq_flatMap (t : UInt32) :
    workerCopies rowCount colCount tileSize numThreads t =
      (workerBlocks rowCount colCount tileSize numThreads t).flatMap
        (blockCopies rowCount colCount) := by
  simp only [workerCopies, workerBlocks, List.flatMap_map]

/-! ## The grid -/

/-- The block covers tile `bi`, `bj` of the grid, with no index wrapped. -/
structure Block.IsTile (tileSize : UInt32) (bi bj : Nat) (block : Block) : Prop where
  iStart : block.iStart.toNat = bi * tileSize.toNat
  iEnd : block.iEnd.toNat = bi * tileSize.toNat + tileSize.toNat
  jStart : block.jStart.toNat = bj * tileSize.toNat
  jEnd : block.jEnd.toNat = bj * tileSize.toNat + tileSize.toNat

theorem Block.IsTile.ne_zero {bi bj : Nat} {block : Block} (htile : 0 < tileSize)
    (h : block.IsTile tileSize bi bj) : block ≠ Block.zero := by
  rintro rfl
  have hend : 0 = bi * tileSize.toNat + tileSize.toNat := h.iEnd
  rw [UInt32.lt_iff_toNat_lt, UInt32.toNat_zero] at htile
  omega

/-- `count` divided by `tileSize` and rounded up, in numbers that do not wrap. -/
def ceilDiv (count tileSize : UInt32) : Nat :=
  (count.toNat + (tileSize.toNat - 1)) / tileSize.toNat

theorem ceilDiv_le_iff {count : UInt32} (htile : 0 < tileSize) {n : Nat} :
    ceilDiv count tileSize ≤ n ↔ count.toNat ≤ n * tileSize.toNat := by
  have hpos : 0 < tileSize.toNat := UInt32.lt_iff_toNat_lt.mp htile
  rw [ceilDiv, Nat.div_le_iff_le_mul_add_pred hpos, Nat.mul_comm tileSize.toNat n]
  omega

section Count

variable {count : UInt32} (htile : 0 < tileSize)
  (hcount : count.toNat + (tileSize.toNat - 1) < 2 ^ 32)
include htile hcount

theorem toNat_numBlocks_eq_ceilDiv :
    (numBlocks count tileSize).toNat = ceilDiv count tileSize := by
  rw [toNat_numBlocks htile (by omega), ceilDiv]

/-- Every tile begins before the last index, and so ends within `uint32_t`. -/
theorem tile_end_lt {b : UInt32} (hb : b < numBlocks count tileSize) :
    b.toNat * tileSize.toNat + tileSize.toNat < 2 ^ 32 := by
  rw [UInt32.lt_iff_toNat_lt, toNat_numBlocks_eq_ceilDiv htile hcount] at hb
  have hbegin := mt (ceilDiv_le_iff htile).mpr (Nat.not_le.mpr hb)
  omega

end Count

theorem length_tileBlocks :
    (tileBlocks rowCount colCount tileSize).length =
      (numBlocks rowCount tileSize).toNat * (numBlocks colCount tileSize).toNat := by
  have hupTo : ∀ n : UInt32, (upTo 0 n).length = n.toNat := by simp [upTo]
  simp [tileBlocks, List.length_flatMap, hupTo, Nat.mul_comm]

section Grid

variable (htile : 0 < tileSize) (hrow : rowCount.toNat + (tileSize.toNat - 1) < 2 ^ 32)
  (hcol : colCount.toNat + (tileSize.toNat - 1) < 2 ^ 32)

section Tiles

include htile hrow hcol

theorem isTile_tileBlock {bi bj : UInt32} (hbi : bi < numBlocks rowCount tileSize)
    (hbj : bj < numBlocks colCount tileSize) :
    (tileBlock tileSize bi bj).IsTile tileSize bi.toNat bj.toNat := by
  have hiEnd := tile_end_lt htile hrow hbi
  have hjEnd := tile_end_lt htile hcol hbj
  have hi : (bi * tileSize).toNat = bi.toNat * tileSize.toNat := toNat_tile_start (by omega)
  have hj : (bj * tileSize).toNat = bj.toNat * tileSize.toNat := toNat_tile_start (by omega)
  refine ⟨hi, ?_, hj, ?_⟩
  · rw [tileBlock, UInt32.toNat_add, hi, Nat.mod_eq_of_lt hiEnd]
  · rw [tileBlock, UInt32.toNat_add, hj, Nat.mod_eq_of_lt hjEnd]

/-- The tiles of the grid are pushed. -/
theorem exists_mem_tileBlocks {bi bj : Nat} (hbi : bi < ceilDiv rowCount tileSize)
    (hbj : bj < ceilDiv colCount tileSize) :
    ∃ block ∈ tileBlocks rowCount colCount tileSize, block.IsTile tileSize bi bj := by
  rw [← toNat_numBlocks_eq_ceilDiv htile hrow] at hbi
  rw [← toNat_numBlocks_eq_ceilDiv htile hcol] at hbj
  obtain ⟨bi, hbi, rfl⟩ := exists_lt_toNat_eq hbi
  obtain ⟨bj, hbj, rfl⟩ := exists_lt_toNat_eq hbj
  exact ⟨_, mem_tileBlocks.mpr ⟨bi, bj, hbi, hbj, rfl⟩, isTile_tileBlock htile hrow hcol hbi hbj⟩

/-- What is pushed are tiles of the grid. -/
theorem isTile_of_mem_tileBlocks {block : Block}
    (hblock : block ∈ tileBlocks rowCount colCount tileSize) :
    ∃ bi < ceilDiv rowCount tileSize, ∃ bj < ceilDiv colCount tileSize,
      block.IsTile tileSize bi bj := by
  obtain ⟨bi, bj, hbi, hbj, rfl⟩ := mem_tileBlocks.mp hblock
  rw [← toNat_numBlocks_eq_ceilDiv htile hrow, ← toNat_numBlocks_eq_ceilDiv htile hcol]
  exact ⟨bi.toNat, UInt32.lt_iff_toNat_lt.mp hbi, bj.toNat, UInt32.lt_iff_toNat_lt.mp hbj,
    isTile_tileBlock htile hrow hcol hbi hbj⟩

theorem nodup_tileBlocks_of_grid : (tileBlocks rowCount colCount tileSize).Nodup := by
  apply nodup_tileBlocks_of_lt htile
  intro bi hbi bj hbj
  have hiEnd := tile_end_lt htile hrow hbi
  have hjEnd := tile_end_lt htile hcol hbj
  constructor <;> omega

theorem length_tileBlocks_eq_mul :
    (tileBlocks rowCount colCount tileSize).length =
      ceilDiv rowCount tileSize * ceilDiv colCount tileSize := by
  rw [length_tileBlocks, toNat_numBlocks_eq_ceilDiv htile hrow,
    toNat_numBlocks_eq_ceilDiv htile hcol]

theorem zero_notMem_tileBlocks : Block.zero ∉ tileBlocks rowCount colCount tileSize := by
  intro hmem
  obtain ⟨bi, -, bj, -, hblock⟩ := isTile_of_mem_tileBlocks htile hrow hcol hmem
  exact hblock.ne_zero htile rfl

end Tiles

variable (hproduct : ceilDiv rowCount tileSize * ceilDiv colCount tileSize < 2 ^ 32)
include htile hrow hcol hproduct

theorem length_tileBlocks_of_grid :
    (tileBlocks rowCount colCount tileSize).length =
      (numBlocks rowCount tileSize * numBlocks colCount tileSize).toNat := by
  rw [← length_tileBlocks_eq_mul htile hrow hcol, length_tileBlocks] at hproduct
  rw [length_tileBlocks, UInt32.toNat_mul, Nat.mod_eq_of_lt hproduct]

/-- As many empty blocks stand in front as there are tiles behind them. -/
theorem length_blocks :
    (blocks rowCount colCount tileSize).length =
      (tileBlocks rowCount colCount tileSize).length +
        (tileBlocks rowCount colCount tileSize).length := by
  rw [blocks, List.length_append, List.length_replicate,
    length_tileBlocks_of_grid htile hrow hcol hproduct]

theorem getD_blocks_tile {pos : Nat} (hpos : pos < (tileBlocks rowCount colCount tileSize).length) :
    (blocks rowCount colCount tileSize).getD
      ((tileBlocks rowCount colCount tileSize).length + pos) Block.zero =
        (tileBlocks rowCount colCount tileSize)[pos] := by
  rw [length_tileBlocks_of_grid htile hrow hcol hproduct, getD_blocks_add,
    List.getD_eq_getElem _ _ hpos]

theorem getD_blocks_mem_iff {idx : Nat} (hidx : idx < (blocks rowCount colCount tileSize).length) :
    (blocks rowCount colCount tileSize).getD idx Block.zero ∈
        tileBlocks rowCount colCount tileSize ↔
      (tileBlocks rowCount colCount tileSize).length ≤ idx := by
  rw [length_blocks htile hrow hcol hproduct] at hidx
  constructor
  · intro hmem
    by_contra hlt
    rw [Nat.not_le, length_tileBlocks_of_grid htile hrow hcol hproduct] at hlt
    rw [getD_blocks_of_lt hlt] at hmem
    exact zero_notMem_tileBlocks htile hrow hcol hmem
  · intro hle
    obtain ⟨pos, rfl⟩ := Nat.exists_eq_add_of_le hle
    rw [getD_blocks_tile htile hrow hcol hproduct (Nat.add_lt_add_iff_left.mp hidx)]
    exact List.getElem_mem _

/-- The entry of the vector that is a given tile. -/
theorem getD_blocks_eq_iff {idx pos : Nat} (hidx : idx < (blocks rowCount colCount tileSize).length)
    (hpos : pos < (tileBlocks rowCount colCount tileSize).length) :
    (blocks rowCount colCount tileSize).getD idx Block.zero =
        (tileBlocks rowCount colCount tileSize)[pos] ↔
      idx = (tileBlocks rowCount colCount tileSize).length + pos := by
  constructor
  · intro heq
    have hmem : (blocks rowCount colCount tileSize).getD idx Block.zero ∈
        tileBlocks rowCount colCount tileSize := heq ▸ List.getElem_mem hpos
    have hle := (getD_blocks_mem_iff htile hrow hcol hproduct hidx).mp hmem
    obtain ⟨pos', rfl⟩ := Nat.exists_eq_add_of_le hle
    rw [length_blocks htile hrow hcol hproduct] at hidx
    rw [getD_blocks_tile htile hrow hcol hproduct (Nat.add_lt_add_iff_left.mp hidx)] at heq
    rw [(nodup_tileBlocks_of_grid htile hrow hcol).getElem_inj_iff.mp heq]
  · rintro rfl
    exact getD_blocks_tile htile hrow hcol hproduct hpos

/-! ## The workers -/

/-- A worker handles a tile once if it has the remainder of the tile's index, and else not. -/
theorem count_workerBlocks {t : UInt32} (ht : t < numThreads) {pos : Nat}
    (hpos : pos < (tileBlocks rowCount colCount tileSize).length) :
    (workerBlocks rowCount colCount tileSize numThreads t).count
        (tileBlocks rowCount colCount tileSize)[pos] =
      if ((tileBlocks rowCount colCount tileSize).length + pos) % numThreads.toNat = t.toNat then 1
      else 0 := by
  have hlt : t.toNat < numThreads.toNat := UInt32.lt_iff_toNat_lt.mp ht
  have hlength := length_blocks htile hrow hcol hproduct
  have hmem : (tileBlocks rowCount colCount tileSize).length + pos ∈
      strided (blocks rowCount colCount tileSize).length numThreads.toNat t.toNat ↔
        ((tileBlocks rowCount colCount tileSize).length + pos) % numThreads.toNat = t.toNat := by
    rw [mem_strided (by omega), Nat.mod_eq_of_lt hlt]
    constructor
    · exact fun h => h.2.2
    · exact fun h => ⟨h ▸ Nat.mod_le _ _, by omega, h⟩
  calc
    (workerBlocks rowCount colCount tileSize numThreads t).count
          (tileBlocks rowCount colCount tileSize)[pos] =
        (strided (blocks rowCount colCount tileSize).length numThreads.toNat t.toNat).count
          ((tileBlocks rowCount colCount tileSize).length + pos) := by
      rw [workerBlocks, List.count, List.countP_map, List.count]
      apply List.countP_congr
      intro idx hidx
      have hin := ((mem_strided (by omega)).mp hidx).2.1
      simp only [Function.comp_apply, beq_iff_eq]
      exact getD_blocks_eq_iff htile hrow hcol hproduct hin hpos
    _ = _ := by rw [nodup_strided.count, if_congr hmem rfl rfl]

theorem countP_workerBlocks {t : UInt32} (hthreads : 0 < numThreads) :
    (workerBlocks rowCount colCount tileSize numThreads t).countP
        (· ∈ tileBlocks rowCount colCount tileSize) =
      (strided (blocks rowCount colCount tileSize).length numThreads.toNat t.toNat).countP
        ((tileBlocks rowCount colCount tileSize).length ≤ ·) := by
  rw [workerBlocks, List.countP_map]
  apply List.countP_congr
  intro idx hidx
  have hin := ((mem_strided (UInt32.lt_iff_toNat_lt.mp hthreads)).mp hidx).2.1
  simp only [Function.comp_apply, decide_eq_true_eq]
  exact getD_blocks_mem_iff htile hrow hcol hproduct hin

theorem countP_workerBlocks_bounds {t : UInt32} (ht : t < numThreads) :
    (tileBlocks rowCount colCount tileSize).length / numThreads.toNat ≤
        (workerBlocks rowCount colCount tileSize numThreads t).countP
          (· ∈ tileBlocks rowCount colCount tileSize) ∧
      (workerBlocks rowCount colCount tileSize numThreads t).countP
          (· ∈ tileBlocks rowCount colCount tileSize) ≤
        (tileBlocks rowCount colCount tileSize).length / numThreads.toNat + 1 := by
  have hthreads : 0 < numThreads := UInt32.lt_of_le_of_lt UInt32.zero_le ht
  rw [countP_workerBlocks htile hrow hcol hproduct hthreads,
    length_blocks htile hrow hcol hproduct]
  exact countP_ge_strided (UInt32.lt_iff_toNat_lt.mp ht)

/-- Each tile has its worker. -/
theorem exists_worker_of_tile (hthreads : 0 < numThreads) {block : Block}
    (hblock : block ∈ tileBlocks rowCount colCount tileSize) :
    ∃ t < numThreads, (workerBlocks rowCount colCount tileSize numThreads t).count block = 1 ∧
      ∀ t' < numThreads, t' ≠ t →
        (workerBlocks rowCount colCount tileSize numThreads t').count block = 0 := by
  obtain ⟨pos, hpos, rfl⟩ := List.getElem_of_mem hblock
  obtain ⟨t, ht, hmod⟩ := exists_lt_toNat_eq (Nat.mod_lt
    ((tileBlocks rowCount colCount tileSize).length + pos) (UInt32.lt_iff_toNat_lt.mp hthreads))
  refine ⟨t, ht, ?_, ?_⟩
  · rw [count_workerBlocks htile hrow hcol hproduct ht hpos, if_pos hmod.symm]
  · intro t' ht' hne
    rw [count_workerBlocks htile hrow hcol hproduct ht' hpos, if_neg]
    rw [← hmod, UInt32.toNat_inj]
    exact Ne.symm hne

/-- The first half of the vector is empty blocks, the second half is tiles. -/
theorem getD_blocks_cases {idx : Nat} (hidx : idx < (blocks rowCount colCount tileSize).length) :
    let block := (blocks rowCount colCount tileSize).getD idx Block.zero
    (idx < ceilDiv rowCount tileSize * ceilDiv colCount tileSize ∧ block = Block.zero ∧
        block ∉ tileBlocks rowCount colCount tileSize ∧
        blockCopies rowCount colCount block = []) ∨
      (ceilDiv rowCount tileSize * ceilDiv colCount tileSize ≤ idx ∧
        block ∈ tileBlocks rowCount colCount tileSize ∧
        ∃ bi < ceilDiv rowCount tileSize, ∃ bj < ceilDiv colCount tileSize,
          block.IsTile tileSize bi bj) := by
  intro block
  have hmem_iff := getD_blocks_mem_iff htile hrow hcol hproduct hidx
  have hlength := length_tileBlocks_eq_mul htile hrow hcol
  by_cases hmem : block ∈ tileBlocks rowCount colCount tileSize
  · right
    exact ⟨hlength ▸ hmem_iff.mp hmem, hmem, isTile_of_mem_tileBlocks htile hrow hcol hmem⟩
  · left
    have hlt := Nat.not_le.mp (mt hmem_iff.mpr hmem)
    have hzero : block = Block.zero := by
      rw [length_tileBlocks_of_grid htile hrow hcol hproduct] at hlt
      exact getD_blocks_of_lt hlt
    exact ⟨hlength ▸ hlt, hzero, hmem, hzero ▸ blockCopies_zero⟩

end Grid

end MatrixTransposer
