import MatrixTransposer.Proof.Tiles
import MatrixTransposer.ServerWorkspace

/-!
# Which elements the workers touch

A block is never cut off at the end of its dimension. So the workers stay inside a matrix exactly
when the tile size divides both of its dimensions, which for the server's tiles and the power-of-two
matrices of its clients means that neither dimension is smaller than a tile.
-/

namespace MatrixTransposer

variable {rowCount colCount tileSize numThreads : UInt32}

theorem zero_lt_numBlocks {count : UInt32} (htile : 0 < tileSize) (hcount : 0 < count)
    (hsum : count.toNat + tileSize.toNat ≤ 2 ^ 32) : 0 < numBlocks count tileSize := by
  have hpos : 0 < tileSize.toNat := UInt32.lt_iff_toNat_lt.mp htile
  rw [UInt32.lt_iff_toNat_lt, UInt32.toNat_zero] at hcount
  rw [UInt32.lt_iff_toNat_lt, toNat_numBlocks htile hsum, UInt32.toNat_zero]
  exact Nat.div_pos (by omega) hpos

/-- The last block of a dimension that the tile size does not divide goes past its end. -/
theorem exists_tile_past_end {count : UInt32} (htile : 0 < tileSize)
    (hsum : count.toNat + tileSize.toNat ≤ 2 ^ 32) (hndvd : ¬ tileSize.toNat ∣ count.toNat) :
    ∃ b < numBlocks count tileSize, b * tileSize ≤ count ∧ count < b * tileSize + tileSize := by
  have hpos : 0 < tileSize.toNat := UInt32.lt_iff_toNat_lt.mp htile
  have hrem : 0 < count.toNat % tileSize.toNat :=
    Nat.pos_of_ne_zero fun h => hndvd (Nat.dvd_of_mod_eq_zero h)
  have hlt := Nat.mod_lt count.toNat hpos
  have hsplit := Nat.div_add_mod' count.toNat tileSize.toNat
  have hstart :
      (count / tileSize * tileSize).toNat = count.toNat / tileSize.toNat * tileSize.toNat := by
    rw [UInt32.toNat_mul, UInt32.toNat_div, Nat.mod_eq_of_lt (by omega)]
  refine ⟨count / tileSize, ?_, ?_, ?_⟩
  · rw [UInt32.lt_iff_toNat_lt, toNat_numBlocks htile hsum, UInt32.toNat_div]
    calc
      count.toNat / tileSize.toNat < count.toNat / tileSize.toNat + 1 := Nat.lt_succ_self _
      _ = (count.toNat / tileSize.toNat * tileSize.toNat + tileSize.toNat) / tileSize.toNat := by
        rw [Nat.add_div_right _ hpos, Nat.mul_div_cancel _ hpos]
      _ ≤ (count.toNat + (tileSize.toNat - 1)) / tileSize.toNat :=
        Nat.div_le_div_right (by omega)
  · rw [UInt32.le_iff_toNat_le, hstart]
    omega
  · rw [UInt32.lt_iff_toNat_lt, UInt32.toNat_add, hstart, Nat.mod_eq_of_lt (by omega)]
    omega

section Bounds

variable (htile : 0 < tileSize) (hrsum : rowCount.toNat + tileSize.toNat ≤ 2 ^ 32)
  (hcsum : colCount.toNat + tileSize.toNat ≤ 2 ^ 32)

def InBounds (rowCount colCount tileSize numThreads : UInt32) (elements : Nat) : Prop :=
  ∀ t < numThreads, ∀ c ∈ workerCopies rowCount colCount tileSize numThreads t,
    c.srcIndex.toNat < elements ∧ c.dstIndex.toNat < elements

include htile in
theorem mem_first_block (b : UInt32) (hb : b = 0) :
    b * tileSize ≤ 0 ∧ 0 < b * tileSize + tileSize := by
  rw [hb, UInt32.zero_mul, UInt32.zero_add]
  exact ⟨UInt32.le_refl _, htile⟩

include htile hrsum hcsum

theorem exists_copy_past_rows (hc : 0 < colCount) (hthreads : 0 < numThreads)
    (hndvd : ¬ tileSize.toNat ∣ rowCount.toNat) :
    ∃ t < numThreads, copyOf rowCount colCount rowCount 0 ∈
      workerCopies rowCount colCount tileSize numThreads t := by
  obtain ⟨bi, hbi, hend⟩ := exists_tile_past_end htile hrsum hndvd
  have hbj := zero_lt_numBlocks htile hc hcsum
  exact exists_worker_of_mem_tileBlocks hthreads (mem_tileBlocks.mpr ⟨bi, 0, hbi, hbj, rfl⟩)
    (mem_blockCopies.mpr ⟨rowCount, 0, hend, mem_first_block htile 0 rfl, rfl⟩)

theorem exists_copy_past_cols (hr : 0 < rowCount) (hthreads : 0 < numThreads)
    (hndvd : ¬ tileSize.toNat ∣ colCount.toNat) :
    ∃ t < numThreads, copyOf rowCount colCount 0 colCount ∈
      workerCopies rowCount colCount tileSize numThreads t := by
  obtain ⟨bj, hbj, hend⟩ := exists_tile_past_end htile hcsum hndvd
  have hbi := zero_lt_numBlocks htile hr hrsum
  exact exists_worker_of_mem_tileBlocks hthreads (mem_tileBlocks.mpr ⟨0, bj, hbi, hbj, rfl⟩)
    (mem_blockCopies.mpr ⟨0, colCount, mem_first_block htile 0 rfl, hend, rfl⟩)

theorem inBounds_iff (hr : 0 < rowCount) (hc : 0 < colCount)
    (hsize : rowCount.toNat * colCount.toNat < 2 ^ 32) :
    InBounds rowCount colCount tileSize numThreads (rowCount.toNat * colCount.toNat) ↔
      numThreads = 0 ∨ (tileSize.toNat ∣ rowCount.toNat ∧ tileSize.toNat ∣ colCount.toNat) := by
  constructor
  · intro hbounds
    by_cases hthreads : numThreads = 0
    · exact Or.inl hthreads
    have hthreads' : 0 < numThreads := UInt32.pos_iff_ne_zero.mpr hthreads
    right
    constructor
    · by_contra hndvd
      -- the element after the last one is read
      obtain ⟨t, ht, hmem⟩ := exists_copy_past_rows htile hrsum hcsum hc hthreads' hndvd
      have hlt := (hbounds t ht _ hmem).1
      rw [copyOf, UInt32.add_zero, UInt32.toNat_mul, Nat.mod_eq_of_lt hsize] at hlt
      exact Nat.lt_irrefl _ hlt
    · by_contra hndvd
      -- the element after the last one is written
      obtain ⟨t, ht, hmem⟩ := exists_copy_past_cols htile hrsum hcsum hr hthreads' hndvd
      have hlt := (hbounds t ht _ hmem).2
      rw [copyOf, UInt32.add_zero, UInt32.toNat_mul, Nat.mul_comm colCount.toNat,
        Nat.mod_eq_of_lt hsize] at hlt
      exact Nat.lt_irrefl _ hlt
  · rintro (rfl | ⟨hrow, hcol⟩) t ht c hmem
    · exact absurd ht UInt32.not_lt_zero
    · have hthreads : 0 < numThreads := UInt32.lt_of_le_of_lt UInt32.zero_le ht
      obtain ⟨i, j, hi, hj, rfl⟩ :=
        (exists_worker_iff htile hrow hcol hsize.le hthreads).mp ⟨t, ht, hmem⟩
      exact ⟨srcIndex_lt hsize.le hi hj, dstIndex_lt hsize.le hi hj⟩

end Bounds

/-! ## The matrices of the clients -/

theorem toNat_one_shiftLeft {m : UInt32} (hm : m < 32) :
    ((1 : UInt32) <<< m).toNat = 2 ^ m.toNat := by
  have hlt : m.toNat < 32 := UInt32.lt_iff_toNat_lt.mp hm
  rw [UInt32.toNat_shiftLeft, UInt32.toNat_one, Nat.one_shiftLeft, Nat.mod_eq_of_lt hlt]
  exact Nat.mod_eq_of_lt (Nat.pow_lt_pow_right (by decide) hlt)

/-- A tile of the server divides a power of two when it is not larger. -/
theorem transposeTileSize_dvd_iff {m : UInt32} :
    transposeTileSize.toNat ∣ 2 ^ m.toNat ↔ 6 ≤ m := by
  have htile : transposeTileSize.toNat = 2 ^ 6 := rfl
  rw [htile, Nat.pow_dvd_pow_iff_le_right (by decide), UInt32.le_iff_toNat_le]
  rfl

theorem inBounds_pow_iff {m n : UInt32} (hm : m < 32) (hn : n < 32)
    (hsum : m.toNat + n.toNat < 32) :
    InBounds (1 <<< m) (1 <<< n) transposeTileSize numThreads (2 ^ m.toNat * 2 ^ n.toNat) ↔
      numThreads = 0 ∨ (6 ≤ m ∧ 6 ≤ n) := by
  have hfits : ∀ {l : UInt32}, l < 32 →
      ((1 : UInt32) <<< l).toNat + transposeTileSize.toNat ≤ 2 ^ 32 := by
    intro l hl
    rw [toNat_one_shiftLeft hl]
    rw [UInt32.lt_iff_toNat_lt] at hl
    have hpow : 2 ^ l.toNat ≤ 2 ^ 31 := Nat.pow_le_pow_right (by decide) (Nat.le_of_lt_succ hl)
    have htile : transposeTileSize.toNat = 64 := rfl
    omega
  have hpos : ∀ {l : UInt32}, l < 32 → 0 < (1 : UInt32) <<< l := by
    intro l hl
    rw [UInt32.lt_iff_toNat_lt, toNat_one_shiftLeft hl]
    exact Nat.two_pow_pos _
  have hsize : 2 ^ m.toNat * 2 ^ n.toNat < 2 ^ 32 := by
    rw [← Nat.pow_add]
    exact Nat.pow_lt_pow_right (by decide) hsum
  rw [← toNat_one_shiftLeft hm, ← toNat_one_shiftLeft hn] at hsize ⊢
  rw [inBounds_iff (by decide) (hfits hm) (hfits hn) (hpos hm) (hpos hn) hsize,
    toNat_one_shiftLeft hm, toNat_one_shiftLeft hn, transposeTileSize_dvd_iff,
    transposeTileSize_dvd_iff]

/-- A buffer of a complete context exists for every index, with the length its constructor
computes. -/
theorem exists_buffer {ownerPid m n k b : UInt32} {suffix : String}
    {buffers : List SharedMatrixBuffer} (hb : b < k)
    (hbuffers : buffers.map some = (upTo 0 k).map fun bufferIndex =>
      SharedMatrixBuffer.construct false ownerPid m n bufferIndex suffix) :
    ∃ buffer, buffers[b.toNat]? = some buffer ∧
      SharedMatrixBuffer.construct false ownerPid m n b suffix = some buffer := by
  rw [UInt32.lt_iff_toNat_lt] at hb
  have hget := congrArg (·[b.toNat]?) hbuffers
  simp only [List.getElem?_map, upTo, UInt32.toNat_zero, Nat.sub_zero,
    List.getElem?_range' hb] at hget
  simp only [Nat.one_mul, Nat.zero_add, Option.map_some, UInt32.ofNat_toNat] at hget
  obtain ⟨buffer, hbuffer, heq⟩ := Option.map_eq_some_iff.mp hget
  exact ⟨buffer, hbuffer, heq.symm⟩

theorem complete_of_addClient {env : Environment} {ws : ServerWorkspace} {req : SubscribeRequest}
    {result : ServerWorkspace.AddResult} (hadd : ws.addClient env req = some result)
    (hadded : result.added = true) :
    (result.workspace.clientBank result.slot).Complete req := by
  obtain ⟨i, -, rfl⟩ := Option.map_eq_some_iff.mp hadd
  cases hbuild : runBuild req env.fails (buildSteps req.k) ClientContext.new with
  | mk ctx built =>
      simp only [hbuild] at hadded ⊢
      cases built with
      | false => cases hadded
      | true =>
          simp only [if_true, ServerWorkspace.publish, ServerWorkspace.awaitDispatcher,
            ServerWorkspace.setClient, Function.update_self]
          exact complete_of_progress (progress_of_runBuild hbuild)

/-- Exactly when no accepted client can make the workers leave the buffers it has mapped. -/
theorem dispatched_indices_lt_iff {env : Environment} {ws : ServerWorkspace}
    {req : SubscribeRequest} (hm : req.m < 32) (hn : req.n < 32)
    {result : ServerWorkspace.AddResult} (hadd : ws.addClient env req = some result)
    (hadded : result.added = true) {b : UInt32} (hb : b < req.k) (numWorkerThreads : UInt32) :
    let ctx := result.workspace.clientBank result.slot
    ∃ buffer bufferTr, ctx.matrixBuffers[b.toNat]? = some buffer ∧
      ctx.matrixBuffersTr[b.toNat]? = some bufferTr ∧
      ((∀ t < numWorkerThreads,
          ∀ c ∈ workerCopies ctx.matrixSize.numRows ctx.matrixSize.numColumns transposeTileSize
            numWorkerThreads t,
          c.srcIndex.toNat < buffer.mappedElements ∧ c.dstIndex.toNat < bufferTr.mappedElements) ↔
        numWorkerThreads = 0 ∨ (6 ≤ req.m ∧ 6 ≤ req.n)) := by
  have hctx := complete_of_addClient hadd hadded
  intro ctx
  obtain ⟨buffer, hbuffer, hconstruct⟩ := exists_buffer hb hctx.matrixBuffers
  obtain ⟨bufferTr, hbufferTr, hconstructTr⟩ := exists_buffer hb hctx.matrixBuffersTr
  have hsum := SharedMatrixBuffer.add_lt_of_construct hm hn hconstruct
  refine ⟨buffer, bufferTr, hbuffer, hbufferTr, ?_⟩
  have hsize : ctx.matrixSize = _ := hctx.matrixSize
  rw [SharedMatrixBuffer.mappedElements_eq hconstruct,
    SharedMatrixBuffer.mappedElements_eq hconstructTr,
    SharedMatrixBuffer.toNat_dimension_mul hm hn hsum, hsize]
  exact inBounds_pow_iff hm hn hsum

/-- For the client's default of a 16 by 16 matrix, a single worker reads beyond the buffer. -/
theorem dispatched_index_not_lt_16_by_16 :
    ∃ result, (ServerWorkspace.initial 1).addClient
        { uninitialized := 0, fails := fun _ => false }
        { clientId := 7, m := 4, n := 4, k := 1, context := { socket := 5 } } = some result ∧
      result.added = true ∧
      ∃ buffer bufferTr,
        (result.workspace.clientBank result.slot).matrixBuffers[0]? = some buffer ∧
        (result.workspace.clientBank result.slot).matrixBuffersTr[0]? = some bufferTr ∧
        ¬ ∀ t < 1, ∀ c ∈ workerCopies
            (result.workspace.clientBank result.slot).matrixSize.numRows
            (result.workspace.clientBank result.slot).matrixSize.numColumns transposeTileSize 1 t,
          c.srcIndex.toNat < buffer.mappedElements ∧
            c.dstIndex.toNat < bufferTr.mappedElements := by
  refine ⟨_, rfl, rfl, _, _, rfl, rfl, ?_⟩
  intro hbounds
  have hiff := @inBounds_pow_iff 1 4 4 (by decide) (by decide) (by decide)
  exact absurd (hiff.mp hbounds) (by decide)

theorem dispatched_indices_lt_64_by_64 :
    ∃ result, (ServerWorkspace.initial 1).addClient
        { uninitialized := 0, fails := fun _ => false }
        { clientId := 7, m := 6, n := 6, k := 1, context := { socket := 5 } } = some result ∧
      ∃ buffer, (result.workspace.clientBank result.slot).matrixBuffers[0]? = some buffer ∧
        ∀ t < 4, ∀ c ∈ workerCopies
            (result.workspace.clientBank result.slot).matrixSize.numRows
            (result.workspace.clientBank result.slot).matrixSize.numColumns transposeTileSize 4 t,
          c.srcIndex.toNat < buffer.mappedElements := by
  obtain ⟨result, hadd, hadded⟩ : ∃ result, (ServerWorkspace.initial 1).addClient
      { uninitialized := 0, fails := fun _ => false }
      { clientId := 7, m := 6, n := 6, k := 1, context := { socket := 5 } } = some result ∧
        result.added = true := ⟨_, rfl, rfl⟩
  obtain ⟨buffer, bufferTr, hbuffer, -, hiff⟩ :=
    dispatched_indices_lt_iff (by decide) (by decide) hadd hadded (b := 0) (by decide) 4
  refine ⟨result, hadd, buffer, hbuffer, ?_⟩
  intro t ht c hc
  exact (hiff.mpr (by decide) t ht c hc).1

end MatrixTransposer
