import MatrixTransposer.Proof.Tiles

/-!
# The tiled transposition computes what the naive one does

Both perform the same copies, which no order can tell apart when source and destination are
disjoint.
-/

namespace MatrixTransposer

variable {rowCount colCount tileSize numThreads : UInt32} {src dst : Nat}

/-- `TransposeNaive` is the loop over a single block that is the whole matrix. -/
def wholeMatrix (rowCount colCount : UInt32) : Block :=
  { iStart := 0, iEnd := rowCount, jStart := 0, jEnd := colCount }

theorem transposeNaive_eq_foldl (mem : Memory) :
    transposeNaive src dst rowCount colCount mem =
      ((blockCopies rowCount colCount (wholeMatrix rowCount colCount)).map
        (Copy.assign src dst)).foldl (fun mem c => c.run mem) mem := by
  simp only [transposeNaive, blockCopies, wholeMatrix, List.foldl_map, List.foldl_flatMap]

def elementAssigns (src dst : Nat) (rowCount colCount : UInt32) : Set (Lib.Assign Nat) :=
  { a | ∃ i j, i < rowCount ∧ j < colCount ∧ a = (copyOf rowCount colCount i j).assign src dst }

theorem mem_naive_iff (a : Lib.Assign Nat) :
    a ∈ (blockCopies rowCount colCount (wholeMatrix rowCount colCount)).map (Copy.assign src dst) ↔
      a ∈ elementAssigns src dst rowCount colCount := by
  simp only [List.mem_map, mem_blockCopies, wholeMatrix, elementAssigns, Set.mem_ofPred_eq]
  constructor
  · rintro ⟨c, ⟨i, j, ⟨-, hi⟩, ⟨-, hj⟩, rfl⟩, rfl⟩
    exact ⟨i, j, hi, hj, rfl⟩
  · rintro ⟨i, j, hi, hj, rfl⟩
    exact ⟨_, ⟨i, j, ⟨UInt32.zero_le, hi⟩, ⟨UInt32.zero_le, hj⟩, rfl⟩, rfl⟩

section Matrix

variable (hsize : rowCount.toNat * colCount.toNat ≤ 2 ^ 32)
  (hdisjoint : src + rowCount.toNat * colCount.toNat ≤ dst ∨
    dst + rowCount.toNat * colCount.toNat ≤ src)
include hsize

theorem target_elementAssigns {a : Lib.Assign Nat}
    (ha : a ∈ elementAssigns src dst rowCount colCount) :
    dst ≤ a.target ∧ a.target < dst + rowCount.toNat * colCount.toNat := by
  obtain ⟨i, j, hi, hj, rfl⟩ := ha
  have hlt := dstIndex_lt hsize hi hj
  exact ⟨Nat.le_add_right _ _, Nat.add_lt_add_left hlt _⟩

theorem source_elementAssigns {a : Lib.Assign Nat}
    (ha : a ∈ elementAssigns src dst rowCount colCount) :
    src ≤ a.source ∧ a.source < src + rowCount.toNat * colCount.toNat := by
  obtain ⟨i, j, hi, hj, rfl⟩ := ha
  have hlt := srcIndex_lt hsize hi hj
  exact ⟨Nat.le_add_right _ _, Nat.add_lt_add_left hlt _⟩

/-- Only the destination is written. -/
theorem transposeNaive_of_outside (mem : Memory) {a : Nat}
    (ha : a < dst ∨ dst + rowCount.toNat * colCount.toNat ≤ a) :
    transposeNaive src dst rowCount colCount mem a = mem a := by
  rw [transposeNaive_eq_foldl]
  apply Lib.Assign.foldl_of_ne
  intro b hb heq
  have htarget := target_elementAssigns hsize ((mem_naive_iff b).mp hb)
  omega

include hdisjoint

theorem consistent_elementAssigns :
    Lib.Assign.Consistent (elementAssigns src dst rowCount colCount) where
  source_ne_target := by
    intro a ha b hb heq
    have hsource := source_elementAssigns hsize ha
    have htarget := target_elementAssigns hsize hb
    omega
  source_eq := by
    rintro a ⟨i, j, hi, hj, rfl⟩ b ⟨i', j', hi', hj', rfl⟩ heq
    have hdst := UInt32.toNat_inj.mp (Nat.add_left_cancel heq)
    obtain ⟨rfl, rfl⟩ := copyOf_eq_of_dstIndex_eq hsize hi hj hi' hj' hdst
    rfl

theorem transposeNaive_source (mem : Memory) {a : Nat} (hlow : src ≤ a)
    (hhigh : a < src + rowCount.toNat * colCount.toNat) :
    transposeNaive src dst rowCount colCount mem a = mem a := by
  apply transposeNaive_of_outside hsize mem
  omega

end Matrix

/-- A pool that holds the copies of all elements, in any distribution and order. -/
theorem store_eq_of_mem_iff (hsize : rowCount.toNat * colCount.toNat ≤ 2 ^ 32)
    (hdisjoint : src + rowCount.toNat * colCount.toNat ≤ dst ∨
      dst + rowCount.toNat * colCount.toNat ≤ src)
    {p final : Lib.Pool UInt32 (Lib.Assign Nat) Memory} {schedule : List UInt32}
    (hp : ∀ a, (∃ t, a ∈ p.todo t) ↔ a ∈ elementAssigns src dst rowCount colCount)
    (hrun : tiledMachine.exec p schedule = some final) (hjoined : final.Joined) :
    final.store = transposeNaive src dst rowCount colCount p.store := by
  obtain ⟨performed, hstore, htasks⟩ := Lib.Pool.exec_eq_foldl hrun
  have hperformed : ∀ a, a ∈ performed ↔ a ∈ elementAssigns src dst rowCount colCount := by
    intro a
    rw [← hp, htasks]
    simp [hjoined _]
  rw [hstore, transposeNaive_eq_foldl]
  exact Lib.Assign.foldl_eq_foldl (consistent_elementAssigns hsize hdisjoint) hperformed
    mem_naive_iff p.store

section Tiled

variable (htile : 0 < tileSize) (hrow : tileSize.toNat ∣ rowCount.toNat)
  (hcol : tileSize.toNat ∣ colCount.toNat) (hsize : rowCount.toNat * colCount.toNat ≤ 2 ^ 32)
  (hthreads : 0 < numThreads)
include htile hrow hcol hsize hthreads

theorem mem_tiledPool_iff (mem : Memory) (a : Lib.Assign Nat) :
    (∃ t, a ∈ (tiledPool src dst rowCount colCount tileSize numThreads mem).todo t) ↔
      a ∈ elementAssigns src dst rowCount colCount := by
  have hworkers := fun c => exists_worker_iff htile hrow hcol hsize hthreads (c := c)
  constructor
  · rintro ⟨t, ha⟩
    simp only [tiledPool] at ha
    split at ha
    case isTrue ht =>
      obtain ⟨c, hc, rfl⟩ := List.mem_map.mp ha
      obtain ⟨i, j, hi, hj, rfl⟩ := (hworkers c).mp ⟨t, ht, hc⟩
      exact ⟨i, j, hi, hj, rfl⟩
    case isFalse => cases ha
  · rintro ⟨i, j, hi, hj, rfl⟩
    obtain ⟨t, ht, hc⟩ := (hworkers _).mpr ⟨i, j, hi, hj, rfl⟩
    refine ⟨t, ?_⟩
    simp only [tiledPool, if_pos ht]
    exact List.mem_map_of_mem hc

/-- However the workers interleave, they leave the memory `TransposeNaive` leaves. -/
theorem store_eq_transposeNaive (hdisjoint : src + rowCount.toNat * colCount.toNat ≤ dst ∨
      dst + rowCount.toNat * colCount.toNat ≤ src) (mem : Memory) {schedule : List UInt32}
    {final : Lib.Pool UInt32 (Lib.Assign Nat) Memory}
    (hrun : tiledMachine.exec (tiledPool src dst rowCount colCount tileSize numThreads mem)
      schedule = some final) (hjoined : final.Joined) :
    final.store = transposeNaive src dst rowCount colCount mem :=
  store_eq_of_mem_iff hsize hdisjoint
    (mem_tiledPool_iff htile hrow hcol hsize hthreads mem) hrun hjoined

end Tiled

/-- `TransposeTiledMultiThreaded` is `TransposeNaive`, for every schedule of its workers, and its
workers can always run to their end. -/
theorem tiled_eq_naive (htile : 1 ≤ tileSize) (hrow : tileSize.toNat ∣ rowCount.toNat)
    (hcol : tileSize.toNat ∣ colCount.toNat) (hsize : rowCount.toNat * colCount.toNat ≤ 2 ^ 32)
    (hthreads : 1 ≤ numThreads)
    (hdisjoint : src + rowCount.toNat * colCount.toNat ≤ dst ∨
      dst + rowCount.toNat * colCount.toNat ≤ src) (mem : Memory) :
    (∀ t < numThreads, ∀ t' < numThreads, t ≠ t' →
      ∀ c ∈ workerCopies rowCount colCount tileSize numThreads t,
      ∀ c' ∈ workerCopies rowCount colCount tileSize numThreads t',
        (c.assign src dst).target ≠ (c'.assign src dst).target) ∧
    (∀ schedule p, tiledMachine.exec
        (tiledPool src dst rowCount colCount tileSize numThreads mem) schedule = some p →
      (∃ rest final, tiledMachine.exec p rest = some final ∧ final.Joined) ∧
      (p.Joined → p.store = transposeNaive src dst rowCount colCount mem ∧
        ∀ a, src ≤ a → a < src + rowCount.toNat * colCount.toNat → p.store a = mem a)) := by
  have htile' : 0 < tileSize := UInt32.lt_of_lt_of_le (by decide) htile
  have hthreads' : 0 < numThreads := UInt32.lt_of_lt_of_le (by decide) hthreads
  constructor
  · intro t ht t' ht' hne c hc c' hc' heq
    have hdst := UInt32.toNat_inj.mp (Nat.add_left_cancel heq)
    exact hne (worker_eq_of_dstIndex_eq htile' hrow hcol hsize ht ht' hc hc' hdst)
  · intro schedule p hrun
    have hfinite : Finite UInt32 :=
      Finite.of_injective UInt32.toFin fun a b h => UInt32.toFin_inj.mp h
    refine ⟨Lib.Pool.exists_exec_joined p, ?_⟩
    intro hjoined
    have hstore := store_eq_transposeNaive htile' hrow hcol hsize hthreads' hdisjoint mem hrun
      hjoined
    refine ⟨hstore, ?_⟩
    intro a hlow hhigh
    rw [hstore, transposeNaive_source hsize hdisjoint mem hlow hhigh]

theorem tiled_eq_naive_two_by_two :
    ∃ schedule final, tiledMachine.exec (tiledPool 0 4 2 2 1 2 UInt64.ofNat) schedule = some final ∧
      final.Joined ∧ final.store 5 = 2 := by
  have htiled := @tiled_eq_naive 2 2 1 2 0 4 (by decide) (by decide) (by decide) (by decide)
    (by decide) (by decide) UInt64.ofNat
  obtain ⟨⟨schedule, final, hrun, hjoined⟩, -⟩ := htiled.2 [] _ rfl
  obtain ⟨-, hfinal⟩ := htiled.2 schedule final hrun
  refine ⟨schedule, final, hrun, hjoined, ?_⟩
  rw [(hfinal hjoined).1]
  decide

end MatrixTransposer
