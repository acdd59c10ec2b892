import MatrixTransposer.Proof.TiledTranspose

/-!
# What `TransposeNaive` computes

The map from the index of an element to its index in the transposed matrix is a bijection for every
shape, and no index of at most `2^32` elements wraps. So every cell of the destination is written
once, with the element that belongs there, and a second transposition undoes the first.
-/

namespace MatrixTransposer

variable {rowCount colCount : UInt32} {src dst : Nat}

/-- The iterations of the two loops, in their order. -/
def naiveCopies (rowCount colCount : UInt32) : List Copy :=
  blockCopies rowCount colCount (wholeMatrix rowCount colCount)

theorem mem_naiveCopies {c : Copy} :
    c ∈ naiveCopies rowCount colCount ↔
      ∃ i j, i < rowCount ∧ j < colCount ∧ c = copyOf rowCount colCount i j := by
  simp [naiveCopies, mem_blockCopies, wholeMatrix]

/-- The row and the column of an index. -/
theorem exists_index {rows cols x : Nat} (hx : x < rows * cols) :
    ∃ i < rows, ∃ j < cols, x = i * cols + j := by
  have hcols : 0 < cols := Nat.pos_of_mul_pos_left (Nat.zero_lt_of_lt hx)
  refine ⟨x / cols, ?_, x % cols, Nat.mod_lt x hcols, (Nat.div_add_mod' x cols).symm⟩
  rwa [Nat.div_lt_iff_lt_mul hcols]

section Matrix

variable (hsize : rowCount.toNat * colCount.toNat ≤ 2 ^ 32)
include hsize

theorem nodup_dstIndex :
    ((naiveCopies rowCount colCount).map fun c => c.dstIndex.toNat).Nodup := by
  rw [naiveCopies, blockCopies, List.map_flatMap, List.nodup_flatMap]
  constructor
  · intro i hi
    rw [List.map_map]
    refine List.Nodup.map_on ?_ nodup_upTo
    intro j hj j' hj' heq
    have hi := (mem_upTo.mp hi).2
    exact (copyOf_eq_of_dstIndex_eq hsize hi (mem_upTo.mp hj).2 hi (mem_upTo.mp hj').2
      (UInt32.toNat_inj.mp heq)).2
  · refine List.Pairwise.imp_of_mem ?_ nodup_upTo
    intro i i' hi hi' hne x hx hx'
    simp only [List.map_map, List.mem_map] at hx hx'
    obtain ⟨j, hj, rfl⟩ := hx
    obtain ⟨j', hj', heq⟩ := hx'
    exact hne (copyOf_eq_of_dstIndex_eq hsize (mem_upTo.mp hi).2 (mem_upTo.mp hj).2
      (mem_upTo.mp hi').2 (mem_upTo.mp hj').2 (UInt32.toNat_inj.mp heq).symm).1

theorem mem_dstIndex_iff {x : Nat} :
    x ∈ (naiveCopies rowCount colCount).map (fun c => c.dstIndex.toNat) ↔
      x < rowCount.toNat * colCount.toNat := by
  constructor
  · intro hx
    obtain ⟨c, hc, rfl⟩ := List.mem_map.mp hx
    obtain ⟨i, j, hi, hj, rfl⟩ := mem_naiveCopies.mp hc
    exact dstIndex_lt hsize hi hj
  · intro hx
    rw [Nat.mul_comm] at hx
    obtain ⟨j, hj, i, hi, rfl⟩ := exists_index hx
    obtain ⟨i, hi, rfl⟩ := exists_lt_toNat_eq hi
    obtain ⟨j, hj, rfl⟩ := exists_lt_toNat_eq hj
    refine List.mem_map.mpr ⟨_, mem_naiveCopies.mpr ⟨i, j, hi, hj, rfl⟩, ?_⟩
    exact dstIndex_copyOf hsize hi hj

/-- Each cell is written once. -/
theorem dstIndex_perm :
    ((naiveCopies rowCount colCount).map fun c => c.dstIndex.toNat).Perm
      (List.range (rowCount.toNat * colCount.toNat)) := by
  rw [List.perm_ext_iff_of_nodup (nodup_dstIndex hsize) List.nodup_range]
  intro x
  rw [mem_dstIndex_iff hsize, List.mem_range]

variable (hdisjoint : src + rowCount.toNat * colCount.toNat ≤ dst ∨
  dst + rowCount.toNat * colCount.toNat ≤ src)
include hdisjoint

theorem transposeNaive_apply (mem : Memory) {i j : Nat} (hi : i < rowCount.toNat)
    (hj : j < colCount.toNat) :
    transposeNaive src dst rowCount colCount mem (dst + (j * rowCount.toNat + i)) =
      mem (src + (i * colCount.toNat + j)) := by
  obtain ⟨i, hi, rfl⟩ := exists_lt_toNat_eq hi
  obtain ⟨j, hj, rfl⟩ := exists_lt_toNat_eq hj
  let c := copyOf rowCount colCount i j
  have htarget : dst + (j.toNat * rowCount.toNat + i.toNat) = (c.assign src dst).target := by
    simp only [Copy.assign, c, dstIndex_copyOf hsize hi hj]
  have hsource : src + (i.toNat * colCount.toNat + j.toNat) = (c.assign src dst).source := by
    simp only [Copy.assign, c, srcIndex_copyOf hsize hi hj]
  rw [htarget, hsource, transposeNaive_eq_foldl]
  apply Lib.Assign.foldl_of_mem (consistent_elementAssigns hsize hdisjoint)
  · exact fun a ha => (mem_naive_iff a).mp ha
  · exact (mem_naive_iff _).mpr ⟨_, _, hi, hj, rfl⟩

/-- Transposing the result with the counts exchanged restores the elements. -/
theorem transposeNaive_transposeNaive (mem : Memory) {back : Nat}
    (hback : dst + rowCount.toNat * colCount.toNat ≤ back ∨
      back + rowCount.toNat * colCount.toNat ≤ dst) {x : Nat}
    (hx : x < rowCount.toNat * colCount.toNat) :
    transposeNaive dst back colCount rowCount (transposeNaive src dst rowCount colCount mem)
      (back + x) = mem (src + x) := by
  obtain ⟨i, hi, j, hj, rfl⟩ := exists_index hx
  rw [Nat.mul_comm] at hback
  rw [transposeNaive_apply (by rwa [Nat.mul_comm]) hback _ hj hi,
    transposeNaive_apply hsize hdisjoint mem hi hj]

end Matrix

/-- **`TransposeNaive`.** For every shape of at most `2^32` elements and a destination apart from
the source: the loops write every cell of the destination once, with indices in range; they leave
the transposed matrix there; and transposing that with the counts exchanged gives the source. -/
theorem naive_transposes (hsize : rowCount.toNat * colCount.toNat ≤ 2 ^ 32)
    (hdisjoint : src + rowCount.toNat * colCount.toNat ≤ dst ∨
      dst + rowCount.toNat * colCount.toNat ≤ src) (mem : Memory) :
    let transposed := transposeNaive src dst rowCount colCount mem
    transposed =
        (naiveCopies rowCount colCount).foldl (fun mem c => (c.assign src dst).run mem) mem ∧
      ((naiveCopies rowCount colCount).map fun c => c.dstIndex.toNat).Perm
        (List.range (rowCount.toNat * colCount.toNat)) ∧
      (∀ c ∈ naiveCopies rowCount colCount, c.srcIndex.toNat < rowCount.toNat * colCount.toNat ∧
        c.dstIndex.toNat < rowCount.toNat * colCount.toNat) ∧
      (∀ i < rowCount.toNat, ∀ j < colCount.toNat,
        transposed (dst + (j * rowCount.toNat + i)) = mem (src + (i * colCount.toNat + j))) ∧
      ∀ back, (dst + rowCount.toNat * colCount.toNat ≤ back ∨
          back + rowCount.toNat * colCount.toNat ≤ dst) →
        ∀ x < rowCount.toNat * colCount.toNat,
          transposeNaive dst back colCount rowCount transposed (back + x) = mem (src + x) := by
  refine ⟨?_, dstIndex_perm hsize, ?_, ?_, ?_⟩
  · rw [transposeNaive_eq_foldl, List.foldl_map]
    rfl
  · intro c hc
    obtain ⟨i, j, hi, hj, rfl⟩ := mem_naiveCopies.mp hc
    exact ⟨srcIndex_lt hsize hi hj, dstIndex_lt hsize hi hj⟩
  · exact fun i hi j hj => transposeNaive_apply hsize hdisjoint mem hi hj
  · exact fun back hback x hx => transposeNaive_transposeNaive hsize hdisjoint mem hback hx

theorem naive_transposes_three_by_two :
    transposeNaive 0 6 3 2 UInt64.ofNat (6 + (1 * 3 + 2)) = 5 ∧
      transposeNaive 6 0 2 3 (transposeNaive 0 6 3 2 UInt64.ofNat) (0 + 5) = 5 := by
  obtain ⟨-, -, -, hresult, hback⟩ :=
    @naive_transposes 3 2 0 6 (by decide) (by decide) UInt64.ofNat
  exact ⟨hresult 2 (by decide) 1 (by decide), hback 0 (by decide) 5 (by decide)⟩

end MatrixTransposer
