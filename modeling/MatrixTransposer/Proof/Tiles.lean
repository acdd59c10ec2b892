import MatrixTransposer.Transpose
import Mathlib.Data.List.Nodup
import Mathlib.Data.List.GetD

/-!
# The copies of the tiled transposition

Which elements each worker of `TransposeTiledMultiThreaded` copies. The first part holds for all
dimensions and tile sizes. Tiles whose starts do not wrap differ from each other. The rest is about
a tile size that divides both dimensions: the tiles then partition the matrix.
-/

namespace MatrixTransposer

variable {rowCount colCount tileSize numThreads : UInt32}

/-! ## The loops -/

theorem mem_upTo {start stop i : UInt32} : i ∈ upTo start stop ↔ start ≤ i ∧ i < stop := by
  simp only [upTo, List.mem_map, List.mem_range'_1, UInt32.le_iff_toNat_le, UInt32.lt_iff_toNat_lt]
  have hstop := stop.toNat_lt
  constructor
  · rintro ⟨n, hn, rfl⟩
    rw [UInt32.toNat_ofNat_of_lt' (by rw [UInt32.size]; omega)]
    omega
  · intro h
    refine ⟨i.toNat, ?_, UInt32.ofNat_toNat⟩
    omega

theorem nodup_upTo {start stop : UInt32} : (upTo start stop).Nodup := by
  have hstop := stop.toNat_lt
  refine List.Nodup.map_on ?_ (List.nodup_range' 1)
  intro n hn n' hn' heq
  rw [List.mem_range'_1] at hn hn'
  have h := congrArg UInt32.toNat heq
  rwa [UInt32.toNat_ofNat_of_lt' (by rw [UInt32.size]; omega),
    UInt32.toNat_ofNat_of_lt' (by rw [UInt32.size]; omega)] at h

theorem exists_lt_toNat_eq {bound : UInt32} {n : Nat} (hn : n < bound.toNat) :
    ∃ i < bound, i.toNat = n := by
  have htoNat : (UInt32.ofNat n).toNat = n :=
    UInt32.toNat_ofNat_of_lt' (Nat.lt_trans hn bound.toNat_lt)
  exact ⟨UInt32.ofNat n, by rwa [UInt32.lt_iff_toNat_lt, htoNat], htoNat⟩

theorem mem_strided {size step start idx : Nat} (hstep : 0 < step) :
    idx ∈ strided size step start ↔ start ≤ idx ∧ idx < size ∧ idx % step = start % step := by
  fun_induction strided size step start with
  | case1 start hlt ih =>
      rw [List.mem_cons, ih, Nat.add_mod_right]
      constructor
      · rintro (rfl | ⟨hle, hsize, hmod⟩)
        · exact ⟨Nat.le_refl _, hlt.1, rfl⟩
        · exact ⟨by omega, hsize, hmod⟩
      · rintro ⟨hle, hsize, hmod⟩
        rcases Nat.eq_or_lt_of_le hle with heq | hgt
        · exact Or.inl heq.symm
        · right
          -- two indices with the same remainder are a whole number of steps apart
          have hdvd : step ∣ idx - start :=
            Nat.dvd_of_mod_eq_zero (Nat.sub_mod_eq_zero_of_mod_eq hmod)
          have hge := Nat.le_of_dvd (by omega) hdvd
          exact ⟨by omega, hsize, hmod⟩
  | case2 start hlt =>
      constructor
      · intro h
        cases h
      · rintro ⟨hle, hsize, -⟩
        exact absurd ⟨by omega, hstep⟩ hlt

/-! ## Blocks and workers -/

theorem mem_blockCopies {block : Block} {c : Copy} :
    c ∈ blockCopies rowCount colCount block ↔
      ∃ i j, (block.iStart ≤ i ∧ i < block.iEnd) ∧ (block.jStart ≤ j ∧ j < block.jEnd) ∧
        c = copyOf rowCount colCount i j := by
  simp only [blockCopies, List.mem_flatMap, List.mem_map, mem_upTo, eq_comm, exists_and_left]

theorem mem_tileBlocks {block : Block} :
    block ∈ tileBlocks rowCount colCount tileSize ↔
      ∃ bi bj, bi < numBlocks rowCount tileSize ∧ bj < numBlocks colCount tileSize ∧
        block = tileBlock tileSize bi bj := by
  simp only [tileBlocks, List.mem_flatMap, List.mem_map, mem_upTo, eq_comm]
  grind [UInt32.zero_le]

theorem blockCopies_zero : blockCopies rowCount colCount Block.zero = [] := by
  rw [List.eq_nil_iff_forall_not_mem]
  intro c hc
  obtain ⟨i, -, ⟨-, hi⟩, -⟩ := mem_blockCopies.mp hc
  exact UInt32.not_lt_zero hi

theorem getD_blocks_of_lt {idx : Nat}
    (hidx : idx < (numBlocks rowCount tileSize * numBlocks colCount tileSize).toNat) :
    (blocks rowCount colCount tileSize).getD idx Block.zero = Block.zero := by
  rw [blocks, List.getD_append _ _ _ _ (by rwa [List.length_replicate]),
    List.getD_replicate _ hidx]

theorem getD_blocks_add (pos : Nat) :
    (blocks rowCount colCount tileSize).getD
      ((numBlocks rowCount tileSize * numBlocks colCount tileSize).toNat + pos) Block.zero =
        (tileBlocks rowCount colCount tileSize).getD pos Block.zero := by
  rw [blocks, List.getD_append_right _ _ _ _ (by rw [List.length_replicate]; omega),
    List.length_replicate, Nat.add_sub_cancel_left]

/-- The value-initialised blocks are empty: a worker copies what the pushed blocks hold. -/
theorem mem_blockCopies_blocks {idx : Nat} {c : Copy}
    (hc : c ∈ blockCopies rowCount colCount
      ((blocks rowCount colCount tileSize).getD idx Block.zero)) :
    ∃ pos, idx = (numBlocks rowCount tileSize * numBlocks colCount tileSize).toNat + pos ∧
      ∃ hpos : pos < (tileBlocks rowCount colCount tileSize).length,
        c ∈ blockCopies rowCount colCount (tileBlocks rowCount colCount tileSize)[pos] := by
  have hnonzero : ∀ block, c ∈ blockCopies rowCount colCount block → block ≠ Block.zero := by
    rintro _ hmem rfl
    rw [blockCopies_zero] at hmem
    cases hmem
  by_cases hidx : idx < (numBlocks rowCount tileSize * numBlocks colCount tileSize).toNat
  · exact absurd (getD_blocks_of_lt hidx) (hnonzero _ hc)
  · obtain ⟨pos, rfl⟩ := Nat.exists_eq_add_of_le (Nat.not_lt.mp hidx)
    rw [getD_blocks_add] at hc
    refine ⟨pos, rfl, ?_⟩
    by_cases hpos : pos < (tileBlocks rowCount colCount tileSize).length
    · rw [List.getD_eq_getElem _ _ hpos] at hc
      exact ⟨hpos, hc⟩
    · exact absurd (List.getD_eq_default _ _ (Nat.not_lt.mp hpos)) (hnonzero _ hc)

/-- A worker's copies come from pushed blocks at positions that have its number as remainder. -/
theorem exists_pos_of_mem_workerCopies (hthreads : 0 < numThreads) {t : UInt32} {c : Copy}
    (hc : c ∈ workerCopies rowCount colCount tileSize numThreads t) :
    ∃ pos, ((numBlocks rowCount tileSize * numBlocks colCount tileSize).toNat + pos) %
        numThreads.toNat = t.toNat % numThreads.toNat ∧
      ∃ hpos : pos < (tileBlocks rowCount colCount tileSize).length,
        c ∈ blockCopies rowCount colCount (tileBlocks rowCount colCount tileSize)[pos] := by
  obtain ⟨idx, hidx, hcopy⟩ := List.mem_flatMap.mp hc
  obtain ⟨-, -, hmod⟩ := (mem_strided (UInt32.lt_iff_toNat_lt.mp hthreads)).mp hidx
  obtain ⟨pos, rfl, hpos, hmem⟩ := mem_blockCopies_blocks hcopy
  exact ⟨pos, hmod, hpos, hmem⟩

theorem exists_block_of_mem_workerCopies (hthreads : 0 < numThreads) {t : UInt32} {c : Copy}
    (hc : c ∈ workerCopies rowCount colCount tileSize numThreads t) :
    ∃ block ∈ tileBlocks rowCount colCount tileSize, c ∈ blockCopies rowCount colCount block := by
  obtain ⟨pos, -, hpos, hmem⟩ := exists_pos_of_mem_workerCopies hthreads hc
  exact ⟨_, List.getElem_mem hpos, hmem⟩

/-- Every block of the vector is visited by a worker. -/
theorem exists_worker_of_mem_blocks (hthreads : 0 < numThreads) {block : Block}
    (hblock : block ∈ blocks rowCount colCount tileSize) :
    ∃ t < numThreads,
      ∃ idx ∈ strided (blocks rowCount colCount tileSize).length numThreads.toNat t.toNat,
        (blocks rowCount colCount tileSize)[idx]? = some block := by
  have hpos : 0 < numThreads.toNat := UInt32.lt_iff_toNat_lt.mp hthreads
  obtain ⟨idx, hidx, hget⟩ := List.getElem_of_mem hblock
  obtain ⟨t, ht, hmod⟩ := exists_lt_toNat_eq (Nat.mod_lt idx hpos)
  refine ⟨t, ht, idx, ?_, ?_⟩
  · rw [mem_strided hpos, hmod]
    exact ⟨Nat.mod_le _ _, hidx, (Nat.mod_mod _ _).symm⟩
  · rw [List.getElem?_eq_getElem hidx, hget]

theorem exists_worker_of_mem_tileBlocks (hthreads : 0 < numThreads) {block : Block} {c : Copy}
    (hblock : block ∈ tileBlocks rowCount colCount tileSize)
    (hc : c ∈ blockCopies rowCount colCount block) :
    ∃ t < numThreads, c ∈ workerCopies rowCount colCount tileSize numThreads t := by
  obtain ⟨t, ht, idx, hidx, hget⟩ :=
    exists_worker_of_mem_blocks hthreads (List.mem_append_right _ hblock)
  refine ⟨t, ht, List.mem_flatMap.mpr ⟨idx, hidx, ?_⟩⟩
  rwa [List.getD_eq_getElem?_getD, hget]

/-! ## Tiles that do not wrap -/

theorem toNat_tile_start {b : UInt32} (hlt : b.toNat * tileSize.toNat < 2 ^ 32) :
    (b * tileSize).toNat = b.toNat * tileSize.toNat := by
  rw [UInt32.toNat_mul, Nat.mod_eq_of_lt hlt]

theorem eq_of_tile_start_eq {b b' : UInt32} (htile : 0 < tileSize)
    (hlt : b.toNat * tileSize.toNat < 2 ^ 32) (hlt' : b'.toNat * tileSize.toNat < 2 ^ 32)
    (heq : b * tileSize = b' * tileSize) : b = b' := by
  have h := congrArg UInt32.toNat heq
  rw [toNat_tile_start hlt, toNat_tile_start hlt'] at h
  exact UInt32.toNat_inj.mp (Nat.eq_of_mul_eq_mul_right (UInt32.lt_iff_toNat_lt.mp htile) h)

/-- Blocks whose starts do not wrap are pushed once. -/
theorem nodup_tileBlocks_of_lt (htile : 0 < tileSize)
    (hlt : ∀ bi < numBlocks rowCount tileSize, ∀ bj < numBlocks colCount tileSize,
      bi.toNat * tileSize.toNat < 2 ^ 32 ∧ bj.toNat * tileSize.toNat < 2 ^ 32) :
    (tileBlocks rowCount colCount tileSize).Nodup := by
  rw [tileBlocks, List.nodup_flatMap]
  constructor
  · intro bj hbj
    refine List.Nodup.map_on ?_ nodup_upTo
    intro bi hbi bi' hbi' heq
    rw [mem_upTo] at hbi hbi' hbj
    exact eq_of_tile_start_eq htile (hlt bi hbi.2 bj hbj.2).1 (hlt bi' hbi'.2 bj hbj.2).1
      (congrArg Block.iStart heq)
  · refine List.Pairwise.imp_of_mem ?_ nodup_upTo
    intro bj bj' hbj hbj' hne block hmem hmem'
    obtain ⟨bi, hbi, rfl⟩ := List.mem_map.mp hmem
    obtain ⟨bi', hbi', heq⟩ := List.mem_map.mp hmem'
    rw [mem_upTo] at hbi hbj hbj'
    exact hne (eq_of_tile_start_eq htile (hlt bi hbi.2 bj hbj.2).2 (hlt bi hbi.2 bj' hbj'.2).2
      (congrArg Block.jStart heq).symm)

/-! ## Tiles that divide both dimensions -/

/-- No index of a matrix with at most `2^32` elements wraps. -/
theorem index_lt {i j rows cols : Nat} (hi : i < rows) (hj : j < cols) :
    i * cols + j < rows * cols := by
  calc
    i * cols + j < (i + 1) * cols := by rw [Nat.add_mul, Nat.one_mul]; omega
    _ ≤ rows * cols := Nat.mul_le_mul_right cols hi

section Indices

variable {i j : UInt32} (hsize : rowCount.toNat * colCount.toNat ≤ 2 ^ 32)
  (hi : i < rowCount) (hj : j < colCount)
include hsize hi hj

theorem srcIndex_copyOf :
    (copyOf rowCount colCount i j).srcIndex.toNat = i.toNat * colCount.toNat + j.toNat := by
  have hlt := index_lt (UInt32.lt_iff_toNat_lt.mp hi) (UInt32.lt_iff_toNat_lt.mp hj)
  rw [copyOf, UInt32.toNat_add, UInt32.toNat_mul, Nat.mod_add_mod, Nat.mod_eq_of_lt (by omega)]

theorem dstIndex_copyOf :
    (copyOf rowCount colCount i j).dstIndex.toNat = j.toNat * rowCount.toNat + i.toNat := by
  have hlt := index_lt (UInt32.lt_iff_toNat_lt.mp hj) (UInt32.lt_iff_toNat_lt.mp hi)
  rw [Nat.mul_comm colCount.toNat] at hlt
  rw [copyOf, UInt32.toNat_add, UInt32.toNat_mul, Nat.mod_add_mod, Nat.mod_eq_of_lt (by omega)]

theorem srcIndex_lt :
    (copyOf rowCount colCount i j).srcIndex.toNat < rowCount.toNat * colCount.toNat := by
  rw [srcIndex_copyOf hsize hi hj]
  exact index_lt (UInt32.lt_iff_toNat_lt.mp hi) (UInt32.lt_iff_toNat_lt.mp hj)

theorem dstIndex_lt :
    (copyOf rowCount colCount i j).dstIndex.toNat < rowCount.toNat * colCount.toNat := by
  rw [dstIndex_copyOf hsize hi hj, Nat.mul_comm rowCount.toNat]
  exact index_lt (UInt32.lt_iff_toNat_lt.mp hj) (UInt32.lt_iff_toNat_lt.mp hi)

theorem copyOf_eq_of_dstIndex_eq {i' j' : UInt32} (hi' : i' < rowCount) (hj' : j' < colCount)
    (heq : (copyOf rowCount colCount i j).dstIndex = (copyOf rowCount colCount i' j').dstIndex) :
    i = i' ∧ j = j' := by
  have h := congrArg UInt32.toNat heq
  rw [dstIndex_copyOf hsize hi hj, dstIndex_copyOf hsize hi' hj'] at h
  rw [UInt32.lt_iff_toNat_lt] at hi hi'
  have hpos : 0 < rowCount.toNat := by omega
  have hrem := congrArg (· % rowCount.toNat) h
  have hquot := congrArg (· / rowCount.toNat) h
  simp only [Nat.mul_add_mod_self_right, Nat.mod_eq_of_lt hi, Nat.mod_eq_of_lt hi'] at hrem
  simp only [Nat.mul_comm _ rowCount.toNat, Nat.mul_add_div hpos, Nat.div_eq_of_lt hi,
    Nat.div_eq_of_lt hi', Nat.add_zero] at hquot
  exact ⟨UInt32.toNat_inj.mp hrem, UInt32.toNat_inj.mp hquot⟩

end Indices

theorem pos_of_lt_numBlocks {count b : UInt32} (htile : 0 < tileSize)
    (hb : b < numBlocks count tileSize) : 0 < count := by
  rw [UInt32.pos_iff_ne_zero]
  rintro rfl
  rw [UInt32.lt_iff_toNat_lt, numBlocks, UInt32.toNat_div, UInt32.zero_add] at hb
  have hpred : (tileSize - 1).toNat < tileSize.toNat := by
    rw [UInt32.lt_iff_toNat_lt] at htile
    rw [UInt32.toNat_sub_of_le _ _ (by rwa [UInt32.le_iff_toNat_le]), UInt32.toNat_one]
    exact Nat.sub_lt htile Nat.one_pos
  rw [Nat.div_eq_of_lt hpred] at hb
  exact Nat.not_lt_zero _ hb

theorem toNat_numBlocks {count : UInt32} (htile : 0 < tileSize)
    (hsum : count.toNat + tileSize.toNat ≤ 2 ^ 32) :
    (numBlocks count tileSize).toNat = (count.toNat + (tileSize.toNat - 1)) / tileSize.toNat := by
  have hpos : 0 < tileSize.toNat := UInt32.lt_iff_toNat_lt.mp htile
  have hrounded : (count + tileSize - 1).toNat = count.toNat + (tileSize.toNat - 1) := by
    rw [UInt32.toNat_sub, UInt32.toNat_add, UInt32.toNat_one]
    omega
  rw [numBlocks, UInt32.toNat_div, hrounded]

theorem numBlocks_mul {count : UInt32} (htile : 0 < tileSize)
    (hdvd : tileSize.toNat ∣ count.toNat) (hsum : count.toNat + tileSize.toNat ≤ 2 ^ 32) :
    (numBlocks count tileSize).toNat * tileSize.toNat = count.toNat := by
  have hpos : 0 < tileSize.toNat := UInt32.lt_iff_toNat_lt.mp htile
  obtain ⟨q, hq⟩ := hdvd
  rw [toNat_numBlocks htile hsum, hq, Nat.mul_add_div hpos,
    Nat.div_eq_of_lt (Nat.sub_lt hpos Nat.one_pos), Nat.add_zero, Nat.mul_comm]

theorem tile_end_le {count b : UInt32}
    (hcount : (numBlocks count tileSize).toNat * tileSize.toNat = count.toNat)
    (hb : b < numBlocks count tileSize) :
    b.toNat * tileSize.toNat + tileSize.toNat ≤ count.toNat := by
  calc
    b.toNat * tileSize.toNat + tileSize.toNat = (b.toNat + 1) * tileSize.toNat := by
      rw [Nat.add_mul, Nat.one_mul]
    _ ≤ (numBlocks count tileSize).toNat * tileSize.toNat :=
      Nat.mul_le_mul_right _ (UInt32.lt_iff_toNat_lt.mp hb)
    _ = count.toNat := hcount

/-- A block of a dimension that the tile size divides holds the indices with its number as
quotient. -/
theorem mem_tile_iff {count b i : UInt32}
    (hcount : (numBlocks count tileSize).toNat * tileSize.toNat = count.toNat)
    (hb : b < numBlocks count tileSize) (htile : 0 < tileSize) :
    b * tileSize ≤ i ∧ i < b * tileSize + tileSize ↔ i.toNat / tileSize.toNat = b.toNat := by
  have hend := tile_end_le hcount hb
  have hlt := count.toNat_lt
  have hpos : 0 < tileSize.toNat := UInt32.lt_iff_toNat_lt.mp htile
  rw [UInt32.le_iff_toNat_le, UInt32.lt_iff_toNat_lt, UInt32.toNat_add,
    toNat_tile_start (by omega), Nat.mod_eq_of_lt (by omega), Nat.div_eq_iff hpos]
  omega

theorem exists_tile_iff {count i : UInt32} (htile : 0 < tileSize)
    (hcount : (numBlocks count tileSize).toNat * tileSize.toNat = count.toNat) :
    (∃ b < numBlocks count tileSize, i.toNat / tileSize.toNat = b.toNat) ↔ i < count := by
  have hpos : 0 < tileSize.toNat := UInt32.lt_iff_toNat_lt.mp htile
  rw [UInt32.lt_iff_toNat_lt, ← hcount, ← Nat.div_lt_iff_lt_mul hpos]
  constructor
  · rintro ⟨b, hb, hquot⟩
    rw [hquot]
    exact UInt32.lt_iff_toNat_lt.mp hb
  · intro hquot
    exact ⟨i / tileSize, UInt32.lt_iff_toNat_lt.mpr (by rwa [UInt32.toNat_div]),
      (UInt32.toNat_div _ _).symm⟩

section Tiling

variable (htile : 0 < tileSize) (hrow : tileSize.toNat ∣ rowCount.toNat)
  (hcol : tileSize.toNat ∣ colCount.toNat) (hsize : rowCount.toNat * colCount.toNat ≤ 2 ^ 32)

include htile hrow hcol hsize

/-- A dimension that is not empty, together with a tile, fits into `uint32_t`. -/
theorem add_tileSize_le (hr : 0 < rowCount) (hc : 0 < colCount) :
    rowCount.toNat + tileSize.toNat ≤ 2 ^ 32 := by
  rw [UInt32.lt_iff_toNat_lt, UInt32.toNat_zero] at hr hc htile
  have hlt := rowCount.toNat_lt
  have hrow' := Nat.le_of_dvd hr hrow
  have hcol' := Nat.le_of_dvd hc hcol
  rcases Nat.eq_or_lt_of_le htile with hone | htwo
  · omega
  · have hdouble : rowCount.toNat * 2 ≤ rowCount.toNat * colCount.toNat :=
      Nat.mul_le_mul_left _ (by omega)
    omega

theorem numBlocks_mul_row (hr : 0 < rowCount) (hc : 0 < colCount) :
    (numBlocks rowCount tileSize).toNat * tileSize.toNat = rowCount.toNat :=
  numBlocks_mul htile hrow (add_tileSize_le htile hrow hcol hsize hr hc)

theorem numBlocks_mul_col (hr : 0 < rowCount) (hc : 0 < colCount) :
    (numBlocks colCount tileSize).toNat * tileSize.toNat = colCount.toNat := by
  rw [Nat.mul_comm rowCount.toNat] at hsize
  exact numBlocks_mul htile hcol (add_tileSize_le htile hcol hrow hsize hc hr)

theorem mem_blockCopies_tileBlock {bi bj : UInt32} (hbi : bi < numBlocks rowCount tileSize)
    (hbj : bj < numBlocks colCount tileSize) {c : Copy} :
    c ∈ blockCopies rowCount colCount (tileBlock tileSize bi bj) ↔
      ∃ i j, i.toNat / tileSize.toNat = bi.toNat ∧ j.toNat / tileSize.toNat = bj.toNat ∧
        c = copyOf rowCount colCount i j := by
  have hr := pos_of_lt_numBlocks htile hbi
  have hc := pos_of_lt_numBlocks htile hbj
  have hrows := numBlocks_mul_row htile hrow hcol hsize hr hc
  have hcols := numBlocks_mul_col htile hrow hcol hsize hr hc
  rw [mem_blockCopies]
  simp only [tileBlock, mem_tile_iff hrows hbi htile, mem_tile_iff hcols hbj htile]

/-- A copy of a block is that of an element of the matrix, whose indices say which block. -/
theorem exists_index_of_mem_block {block : Block} {c : Copy}
    (hblock : block ∈ tileBlocks rowCount colCount tileSize)
    (hmem : c ∈ blockCopies rowCount colCount block) :
    ∃ i j, i < rowCount ∧ j < colCount ∧ c = copyOf rowCount colCount i j ∧
      block = tileBlock tileSize (i / tileSize) (j / tileSize) := by
  obtain ⟨bi, bj, hbi, hbj, rfl⟩ := mem_tileBlocks.mp hblock
  have hr := pos_of_lt_numBlocks htile hbi
  have hc := pos_of_lt_numBlocks htile hbj
  have hrows := numBlocks_mul_row htile hrow hcol hsize hr hc
  have hcols := numBlocks_mul_col htile hrow hcol hsize hr hc
  obtain ⟨i, j, hi, hj, heq⟩ := (mem_blockCopies_tileBlock htile hrow hcol hsize hbi hbj).mp hmem
  refine ⟨i, j, ?_, ?_, heq, ?_⟩
  · exact (exists_tile_iff htile hrows).mp ⟨bi, hbi, hi⟩
  · exact (exists_tile_iff htile hcols).mp ⟨bj, hbj, hj⟩
  · rw [← UInt32.toNat_div, UInt32.toNat_inj] at hi hj
    rw [hi, hj]

theorem exists_block_of_index {i j : UInt32} (hi : i < rowCount) (hj : j < colCount) :
    ∃ block ∈ tileBlocks rowCount colCount tileSize,
      copyOf rowCount colCount i j ∈ blockCopies rowCount colCount block := by
  have hr : 0 < rowCount := UInt32.lt_of_le_of_lt UInt32.zero_le hi
  have hc : 0 < colCount := UInt32.lt_of_le_of_lt UInt32.zero_le hj
  have hrows := numBlocks_mul_row htile hrow hcol hsize hr hc
  have hcols := numBlocks_mul_col htile hrow hcol hsize hr hc
  obtain ⟨bi, hbi, hiquot⟩ := (exists_tile_iff htile hrows).mpr hi
  obtain ⟨bj, hbj, hjquot⟩ := (exists_tile_iff htile hcols).mpr hj
  exact ⟨_, mem_tileBlocks.mpr ⟨bi, bj, hbi, hbj, rfl⟩,
    (mem_blockCopies_tileBlock htile hrow hcol hsize hbi hbj).mpr ⟨i, j, hiquot, hjquot, rfl⟩⟩

theorem nodup_tileBlocks : (tileBlocks rowCount colCount tileSize).Nodup := by
  apply nodup_tileBlocks_of_lt htile
  intro bi hbi bj hbj
  have hr := pos_of_lt_numBlocks htile hbi
  have hc := pos_of_lt_numBlocks htile hbj
  have hrowEnd := tile_end_le (numBlocks_mul_row htile hrow hcol hsize hr hc) hbi
  have hcolEnd := tile_end_le (numBlocks_mul_col htile hrow hcol hsize hr hc) hbj
  have hrowLt := rowCount.toNat_lt
  have hcolLt := colCount.toNat_lt
  constructor <;> omega

theorem block_eq_of_dstIndex_eq {block block' : Block}
    (hblock : block ∈ tileBlocks rowCount colCount tileSize)
    (hblock' : block' ∈ tileBlocks rowCount colCount tileSize) {c c' : Copy}
    (hc : c ∈ blockCopies rowCount colCount block)
    (hc' : c' ∈ blockCopies rowCount colCount block') (heq : c.dstIndex = c'.dstIndex) :
    block = block' := by
  obtain ⟨i, j, hi, hj, rfl, rfl⟩ :=
    exists_index_of_mem_block htile hrow hcol hsize hblock hc
  obtain ⟨i', j', hi', hj', rfl, rfl⟩ :=
    exists_index_of_mem_block htile hrow hcol hsize hblock' hc'
  obtain ⟨rfl, rfl⟩ := copyOf_eq_of_dstIndex_eq hsize hi hj hi' hj' heq
  rfl

/-! ## Workers -/

/-- Together the workers copy every element of the matrix and nothing else. -/
theorem exists_worker_iff (hthreads : 0 < numThreads) {c : Copy} :
    (∃ t < numThreads, c ∈ workerCopies rowCount colCount tileSize numThreads t) ↔
      ∃ i j, i < rowCount ∧ j < colCount ∧ c = copyOf rowCount colCount i j := by
  constructor
  · rintro ⟨t, -, hc⟩
    obtain ⟨block, hblock, hmem⟩ := exists_block_of_mem_workerCopies hthreads hc
    obtain ⟨i, j, hi, hj, heq, -⟩ := exists_index_of_mem_block htile hrow hcol hsize hblock hmem
    exact ⟨i, j, hi, hj, heq⟩
  · rintro ⟨i, j, hi, hj, rfl⟩
    obtain ⟨block, hblock, hmem⟩ := exists_block_of_index htile hrow hcol hsize hi hj
    exact exists_worker_of_mem_tileBlocks hthreads hblock hmem

theorem worker_eq_of_dstIndex_eq {t t' : UInt32} (ht : t < numThreads) (ht' : t' < numThreads)
    {c c' : Copy} (hc : c ∈ workerCopies rowCount colCount tileSize numThreads t)
    (hc' : c' ∈ workerCopies rowCount colCount tileSize numThreads t')
    (heq : c.dstIndex = c'.dstIndex) : t = t' := by
  have hthreads : 0 < numThreads := UInt32.lt_of_le_of_lt UInt32.zero_le ht
  obtain ⟨pos, hmod, hpos, hmem⟩ := exists_pos_of_mem_workerCopies hthreads hc
  obtain ⟨pos', hmod', hpos', hmem'⟩ := exists_pos_of_mem_workerCopies hthreads hc'
  have hblock := block_eq_of_dstIndex_eq htile hrow hcol hsize (List.getElem_mem hpos)
    (List.getElem_mem hpos') hmem hmem' heq
  have hsame : pos = pos' :=
    (nodup_tileBlocks htile hrow hcol hsize).getElem_inj_iff.mp hblock
  subst hsame
  rw [Nat.mod_eq_of_lt (UInt32.lt_iff_toNat_lt.mp ht)] at hmod
  rw [Nat.mod_eq_of_lt (UInt32.lt_iff_toNat_lt.mp ht')] at hmod'
  exact UInt32.toNat_inj.mp (hmod.symm.trans hmod')

end Tiling

end MatrixTransposer
