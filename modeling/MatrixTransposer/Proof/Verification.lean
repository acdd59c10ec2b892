import MatrixTransposer.Proof.NaiveTranspose
import MatrixTransposer.Proof.TransposeBounds
import MatrixTransposer.TransposeClient

/-!
# The client's verification

A result is compared, element by element, with the transposition of its matrix. The comparison is
made with the counts of the untransposed matrix, which does not matter, since their product is the
same; and the product does not wrap, since the buffers could be mapped.
-/

namespace MatrixTransposer

variable {rowCount colCount : UInt32} {src dst : Nat} {mem : Memory}

theorem matricesAreEqual_iff {left right : Nat} :
    matricesAreEqual left right rowCount colCount mem = true ↔
      ∀ x < (rowCount * colCount).toNat, mem (left + x) = mem (right + x) := by
  simp only [matricesAreEqual, List.all_eq_true, mem_upTo, beq_iff_eq]
  constructor
  · intro h x hx
    obtain ⟨i, hi, rfl⟩ := exists_lt_toNat_eq hx
    exact h i ⟨UInt32.zero_le, hi⟩
  · exact fun h i hi => h i.toNat (UInt32.lt_iff_toNat_lt.mp hi.2)

/-- What comparing a result with the transposed matrix finds out. -/
theorem matricesAreEqual_transposeNaive_iff {result : Nat}
    (hsize : rowCount.toNat * colCount.toNat < 2 ^ 32)
    (hsrc : src + rowCount.toNat * colCount.toNat ≤ dst ∨
      dst + rowCount.toNat * colCount.toNat ≤ src)
    (hresult : result + rowCount.toNat * colCount.toNat ≤ dst ∨
      dst + rowCount.toNat * colCount.toNat ≤ result) :
    matricesAreEqual result dst rowCount colCount
        (transposeNaive src dst rowCount colCount mem) = true ↔
      ∀ i < rowCount.toNat, ∀ j < colCount.toNat,
        mem (result + (j * rowCount.toNat + i)) = mem (src + (i * colCount.toNat + j)) := by
  have hproduct : (rowCount * colCount).toNat = rowCount.toNat * colCount.toNat := by
    rw [UInt32.toNat_mul, Nat.mod_eq_of_lt hsize]
  have hkept : ∀ x < rowCount.toNat * colCount.toNat,
      transposeNaive src dst rowCount colCount mem (result + x) = mem (result + x) := by
    intro x hx
    apply transposeNaive_of_outside hsize.le
    omega
  rw [matricesAreEqual_iff, hproduct]
  constructor
  · intro h i hi j hj
    have hx := index_lt hj hi
    rw [Nat.mul_comm colCount.toNat] at hx
    rw [← hkept _ hx, h _ hx, transposeNaive_apply hsize.le hsrc mem hi hj]
  · intro h x hx
    rw [hkept x hx]
    rw [Nat.mul_comm] at hx
    obtain ⟨j, hj, i, hi, rfl⟩ := exists_index hx
    rw [h i hi j hj, transposeNaive_apply hsize.le hsrc mem hi hj]

theorem SharedMatrixBuffer.dimension_of_le {m : UInt32} (hle : 32 ≤ m) (hlt : m < 64) :
    dimension m = 0 := by
  rw [UInt32.le_iff_toNat_le] at hle
  rw [UInt32.lt_iff_toNat_lt] at hlt
  have hpow : 2 ^ m.toNat < 2 ^ 64 := Nat.pow_lt_pow_right (by decide) hlt
  have hdvd : 2 ^ 32 ∣ 2 ^ m.toNat := Nat.pow_dvd_pow 2 hle
  have hcount : m.toNat % 64 = m.toNat := Nat.mod_eq_of_lt hlt
  apply UInt32.toNat_inj.mp
  rw [dimension, UInt64.toNat_toUInt32, UInt64.toNat_shiftLeft, UInt32.toNat_toUInt64,
    UInt64.toNat_one, Nat.one_shiftLeft, hcount, Nat.mod_eq_of_lt hpow, Nat.mod_eq_zero_of_dvd hdvd]
  rfl

namespace TransposeClient

variable {fails : BufferVector → UInt32 → Bool} {clientPid m n k : UInt32}
  {buffers : ClientBuffers}

/-! ## The buffers -/

theorem map_some_of_foldlM {l : List (BufferVector × UInt32)} {start : ClientBuffers}
    (h : l.foldlM (pushBuffer fails clientPid m n) start = some buffers) (v : BufferVector) :
    (buffers v).map some = (start v).map some ++
      ((l.filter fun push => push.1 = v).map Prod.snd).map fun bufferIndex =>
        SharedMatrixBuffer.construct false clientPid m n bufferIndex v.nameSuffix := by
  induction l generalizing start with
  | nil =>
      cases h
      simp
  | cons push l ih =>
      obtain ⟨vector, bufferIndex⟩ := push
      rw [List.foldlM_cons] at h
      obtain ⟨next, hpush, hrest⟩ := Option.bind_eq_some_iff.mp h
      obtain ⟨buffer, hbuffer, rfl⟩ := Option.map_eq_some_iff.mp hpush
      rw [(SharedMatrixBuffer.construct_eq_some hbuffer).1] at hbuffer
      rw [ih hrest]
      by_cases heq : vector = v
      · subst heq
        rw [Function.update_self, List.filter_cons_of_pos (by simp)]
        simp [hbuffer]
      · rw [Function.update_of_ne (Ne.symm heq), List.filter_cons_of_neg (by simpa using heq)]

theorem filter_pushes (k : UInt32) (v : BufferVector) :
    ((pushes k).filter fun push => push.1 = v).map Prod.snd = upTo 0 k := by
  rw [pushes]
  induction upTo 0 k with
  | nil => rfl
  | cons bufferIndex l ih =>
      rw [List.flatMap_cons, List.filter_append, List.map_append, ih]
      cases v <;> rfl

section Buffers

variable (h : constructBuffers fails clientPid m n k = some buffers)
include h

theorem map_some_of_constructBuffers (v : BufferVector) :
    (buffers v).map some = (upTo 0 k).map fun bufferIndex =>
      SharedMatrixBuffer.construct false clientPid m n bufferIndex v.nameSuffix := by
  rw [constructBuffers] at h
  obtain ⟨-, h⟩ := Option.ite_none_right_eq_some.mp h
  have hall := map_some_of_foldlM h v
  rwa [filter_pushes, List.map_nil, List.nil_append] at hall

theorem exists_buffer_of_constructBuffers {b : UInt32} (hb : b < k) (v : BufferVector) :
    ∃ buffer ∈ buffers v, (buffers v)[b.toNat]? = some buffer := by
  obtain ⟨buffer, hget, -⟩ := exists_buffer hb (map_some_of_constructBuffers h v)
  exact ⟨buffer, List.mem_of_getElem? hget, hget⟩

theorem construct_of_mem {v : BufferVector} {buffer : SharedMatrixBuffer}
    (hbuffer : buffer ∈ buffers v) :
    ∃ b < k, SharedMatrixBuffer.construct false clientPid m n b v.nameSuffix = some buffer := by
  have hmem := List.mem_map_of_mem (f := some) hbuffer
  rw [map_some_of_constructBuffers h v] at hmem
  obtain ⟨b, hb, hconstruct⟩ := List.mem_map.mp hmem
  exact ⟨b, (mem_upTo.mp hb).2, hconstruct⟩

/-- The product of the counts does not wrap. -/
theorem add_lt_of_constructBuffers {b : UInt32} (hb : b < k) :
    m < 32 ∧ n < 32 ∧ m.toNat + n.toNat < 32 := by
  obtain ⟨buffer, -, hget⟩ := exists_buffer_of_constructBuffers h hb .matrixBuffers
  obtain ⟨b', -, hbuffer⟩ := construct_of_mem h (List.mem_of_getElem? hget)
  have hsize := (SharedMatrixBuffer.construct_eq_some hbuffer).2.2.2.2.2.2
  have hpos := SharedMatrixBuffer.mappedElements_pos buffer m n hsize
  rw [constructBuffers] at h
  obtain ⟨hdefined, -⟩ := Option.ite_none_right_eq_some.mp h
  have hk : k ≠ 0 := by
    rintro rfl
    exact UInt32.not_lt_zero hb
  obtain ⟨hm64, hn64, -⟩ := hdefined.resolve_left hk
  have hm : m < 32 := by
    by_contra hle
    rw [SharedMatrixBuffer.dimension_of_le (UInt32.not_lt.mp hle) hm64, UInt32.zero_mul] at hpos
    exact Nat.lt_irrefl 0 hpos
  have hn : n < 32 := by
    by_contra hle
    rw [SharedMatrixBuffer.dimension_of_le (UInt32.not_lt.mp hle) hn64, UInt32.mul_zero] at hpos
    exact Nat.lt_irrefl 0 hpos
  exact ⟨hm, hn, SharedMatrixBuffer.add_lt_of_construct hm hn hbuffer⟩

theorem mappedElements_of_mem {v : BufferVector} {buffer : SharedMatrixBuffer}
    (hbuffer : buffer ∈ buffers v) : buffer.mappedElements = 2 ^ m.toNat * 2 ^ n.toNat := by
  obtain ⟨b, hb, hconstruct⟩ := construct_of_mem h hbuffer
  obtain ⟨hm, hn, hsum⟩ := add_lt_of_constructBuffers h hb
  rw [SharedMatrixBuffer.mappedElements_eq hconstruct,
    SharedMatrixBuffer.toNat_dimension_mul hm hn hsum]

/-- The references have names of their own. -/
theorem ne_reference {v : BufferVector} (hv : v ≠ .matrixBuffersTrReference)
    {buffer reference : SharedMatrixBuffer} (hbuffer : buffer ∈ buffers v)
    (hreference : reference ∈ buffers .matrixBuffersTrReference) : buffer ≠ reference := by
  rintro rfl
  obtain ⟨b, -, hconstruct⟩ := construct_of_mem h hbuffer
  obtain ⟨b', -, hconstruct'⟩ := construct_of_mem h hreference
  have hsuffix := (SharedMatrixBuffer.construct_eq_some hconstruct).2.2.2.2.2.1
  have hsuffix' := (SharedMatrixBuffer.construct_eq_some hconstruct').2.2.2.2.2.1
  have hsame := hsuffix.symm.trans hsuffix'
  cases v with
  | matrixBuffers => exact absurd hsame (by decide)
  | matrixBuffersTr => exact absurd hsame (by decide)
  | matrixBuffersTrReference => exact hv rfl

end Buffers

/-! ## The loop -/

section Loop

variable (mappings : Mappings buffers)

/-- The result of the buffers at an index is not the transposed matrix. -/
def Differs (m n : UInt32) (mem : Memory) (b : UInt32) : Prop :=
  ∃ matrix tr, (buffers .matrixBuffers)[b.toNat]? = some matrix ∧
    (buffers .matrixBuffersTr)[b.toNat]? = some tr ∧
    ∃ i < 2 ^ m.toNat, ∃ j < 2 ^ n.toNat,
      mem (mappings.rawPointer tr + (j * 2 ^ m.toNat + i)) ≠
        mem (mappings.rawPointer matrix + (i * 2 ^ n.toNat + j))

/-- What the loop leaves alone: the matrices and the results. -/
def SameInputs (mem mem' : Memory) : Prop :=
  ∀ v, v ≠ .matrixBuffersTrReference → ∀ buffer ∈ buffers v, ∀ x < buffer.mappedElements,
    mem' (mappings.rawPointer buffer + x) = mem (mappings.rawPointer buffer + x)

structure Verified (m n : UInt32) (mem : Memory) (done : List UInt32) (v : Verification) :
    Prop where
  inputs : SameInputs mappings mem v.mem
  errorFound : v.errorFound = true ↔ ∃ b ∈ done, Differs mappings m n mem b
  output : v.output ≠ [] ↔ v.errorFound = true

variable {mappings}

section Run

variable (hbuffers : constructBuffers fails clientPid m n k = some buffers) {mem : Memory}
include hbuffers

/-- Inputs are not in the reference that a verification writes. -/
theorem apart_reference {v : BufferVector} (hv : v ≠ .matrixBuffersTrReference)
    {buffer reference : SharedMatrixBuffer} (hbuffer : buffer ∈ buffers v)
    (hreference : reference ∈ buffers .matrixBuffersTrReference) :
    mappings.rawPointer buffer + 2 ^ m.toNat * 2 ^ n.toNat ≤ mappings.rawPointer reference ∨
      mappings.rawPointer reference + 2 ^ m.toNat * 2 ^ n.toNat ≤ mappings.rawPointer buffer := by
  have hne := ne_reference hbuffers hv hbuffer hreference
  have hapart := mappings.apart _ _ buffer hbuffer reference hreference hne
  rwa [mappedElements_of_mem hbuffers hbuffer, mappedElements_of_mem hbuffers hreference] at hapart

omit hbuffers in
theorem not_differs_iff {b : UInt32} {matrix tr : SharedMatrixBuffer}
    (hget : (buffers .matrixBuffers)[b.toNat]? = some matrix)
    (hgetTr : (buffers .matrixBuffersTr)[b.toNat]? = some tr) :
    ¬ Differs mappings m n mem b ↔ ∀ i < 2 ^ m.toNat, ∀ j < 2 ^ n.toNat,
      mem (mappings.rawPointer tr + (j * 2 ^ m.toNat + i)) =
        mem (mappings.rawPointer matrix + (i * 2 ^ n.toNat + j)) := by
  constructor
  · intro h i hi j hj
    by_contra hne
    exact h ⟨matrix, tr, hget, hgetTr, i, hi, j, hj, hne⟩
  · rintro h ⟨matrix', tr', hget', hgetTr', i, hi, j, hj, hne⟩
    obtain rfl := Option.some.inj (hget.symm.trans hget')
    obtain rfl := Option.some.inj (hgetTr.symm.trans hgetTr')
    exact hne (h i hi j hj)

theorem SameInputs.not_differs_iff {mem' : Memory} (h : SameInputs mappings mem mem') {b : UInt32}
    (hb : b < k) : ¬ Differs mappings m n mem' b ↔ ¬ Differs mappings m n mem b := by
  obtain ⟨matrix, hmatrix, hget⟩ := exists_buffer_of_constructBuffers hbuffers hb .matrixBuffers
  obtain ⟨tr, htr, hgetTr⟩ := exists_buffer_of_constructBuffers hbuffers hb .matrixBuffersTr
  have hsize : ∀ {i j}, i < 2 ^ m.toNat → j < 2 ^ n.toNat →
      mem' (mappings.rawPointer tr + (j * 2 ^ m.toNat + i)) =
          mem (mappings.rawPointer tr + (j * 2 ^ m.toNat + i)) ∧
        mem' (mappings.rawPointer matrix + (i * 2 ^ n.toNat + j)) =
          mem (mappings.rawPointer matrix + (i * 2 ^ n.toNat + j)) := by
    intro i j hi hj
    constructor
    · apply h _ (by decide) tr htr
      rw [mappedElements_of_mem hbuffers htr, Nat.mul_comm (2 ^ m.toNat)]
      exact index_lt hj hi
    · apply h _ (by decide) matrix hmatrix
      rw [mappedElements_of_mem hbuffers hmatrix]
      exact index_lt hi hj
  rw [TransposeClient.not_differs_iff hget hgetTr, TransposeClient.not_differs_iff hget hgetTr]
  constructor
  · intro hequal i hi j hj
    rw [← (hsize hi hj).1, ← (hsize hi hj).2]
    exact hequal i hi j hj
  · intro hequal i hi j hj
    rw [(hsize hi hj).1, (hsize hi hj).2]
    exact hequal i hi j hj

/-- One iteration: the reference of the index is written, and the comparison finds out whether the
result differs. -/
theorem Verified.index {done : List UInt32} {v : Verification}
    (h : Verified mappings m n mem done v) {b : UInt32} (hb : b < k) :
    ∃ v', verifyIndex mappings.rawPointer clientPid m n buffers v b = some v' ∧
      Verified mappings m n mem (done ++ [b]) v' := by
  obtain ⟨hm, hn, hsum⟩ := add_lt_of_constructBuffers hbuffers hb
  obtain ⟨matrix, hmatrix, hget⟩ := exists_buffer_of_constructBuffers hbuffers hb .matrixBuffers
  obtain ⟨tr, htr, hgetTr⟩ := exists_buffer_of_constructBuffers hbuffers hb .matrixBuffersTr
  obtain ⟨reference, href, hgetRef⟩ :=
    exists_buffer_of_constructBuffers hbuffers hb .matrixBuffersTrReference
  have hrows := toNat_one_shiftLeft hm
  have hcols := toNat_one_shiftLeft hn
  have hsize : ((1 : UInt32) <<< m).toNat * ((1 : UInt32) <<< n).toNat < 2 ^ 32 := by
    rw [hrows, hcols, ← Nat.pow_add]
    exact Nat.pow_lt_pow_right (by decide) hsum
  have hapart : ∀ v, v ≠ .matrixBuffersTrReference → ∀ buffer ∈ buffers v,
      mappings.rawPointer buffer + ((1 : UInt32) <<< m).toNat * ((1 : UInt32) <<< n).toNat ≤
        mappings.rawPointer reference ∨
      mappings.rawPointer reference + ((1 : UInt32) <<< m).toNat * ((1 : UInt32) <<< n).toNat ≤
        mappings.rawPointer buffer := by
    intro v hv buffer hbuffer
    rw [hrows, hcols]
    exact apart_reference hbuffers hv hbuffer href
  let mem' := transposeNaive (mappings.rawPointer matrix) (mappings.rawPointer reference)
    (1 <<< m) (1 <<< n) v.mem
  have hinputs : SameInputs mappings mem mem' := by
    intro v' hv' buffer hbuffer x hx
    rw [← h.inputs v' hv' buffer hbuffer x hx]
    apply transposeNaive_of_outside hsize.le
    rw [mappedElements_of_mem hbuffers hbuffer, ← hrows, ← hcols] at hx
    have hoff := hapart v' hv' buffer hbuffer
    omega
  have hequal : matricesAreEqual (mappings.rawPointer tr) (mappings.rawPointer reference)
      (1 <<< m) (1 <<< n) mem' = true ↔ ¬ Differs mappings m n mem b := by
    rw [matricesAreEqual_transposeNaive_iff hsize (hapart _ (by decide) _ hmatrix)
      (hapart _ (by decide) _ htr), hrows, hcols, ← not_differs_iff hget hgetTr]
    exact h.inputs.not_differs_iff hbuffers hb
  refine ⟨verifyBuffer mappings.rawPointer clientPid m n matrix tr reference b v, ?_, ?_⟩
  · rw [verifyIndex, hget, hgetTr, hgetRef]
  · rw [verifyBuffer]
    by_cases hdiffers : Differs mappings m n mem b
    · rw [if_neg (fun heq => hequal.mp heq hdiffers)]
      refine ⟨hinputs, ?_, ?_⟩
      · simp only [true_iff]
        exact ⟨b, List.mem_append_right _ List.mem_cons_self, hdiffers⟩
      · simp
    · rw [if_pos (hequal.mpr hdiffers)]
      refine ⟨hinputs, ?_, h.output⟩
      rw [h.errorFound]
      constructor
      · rintro ⟨b', hb', hdiffers'⟩
        exact ⟨b', List.mem_append_left _ hb', hdiffers'⟩
      · rintro ⟨b', hb', hdiffers'⟩
        rcases List.mem_append.mp hb' with hdone | hlast
        · exact ⟨b', hdone, hdiffers'⟩
        · rw [List.mem_singleton.mp hlast] at hdiffers'
          exact absurd hdiffers' hdiffers

theorem Verified.run {rest : List UInt32} (hrest : ∀ b ∈ rest, b < k) {done : List UInt32}
    {v : Verification} (h : Verified mappings m n mem done v) :
    ∃ v', rest.foldlM (verifyIndex mappings.rawPointer clientPid m n buffers) v = some v' ∧
      Verified mappings m n mem (done ++ rest) v' := by
  induction rest generalizing done v with
  | nil => exact ⟨v, rfl, by rwa [List.append_nil]⟩
  | cons b rest ih =>
      obtain ⟨mid, hmid, hverified⟩ := h.index hbuffers (hrest b List.mem_cons_self)
      obtain ⟨v', hrun, hfinal⟩ :=
        ih (fun b' hb' => hrest b' (List.mem_cons_of_mem _ hb')) hverified
      refine ⟨v', ?_, by rwa [List.append_assoc] at hfinal⟩
      rw [List.foldlM_cons, hmid]
      exact hrun

end Run

end Loop

/-- **The client's verification is sound and complete.** Once all buffers are constructed, the loop
runs to its end whatever the matrices and the results hold, and `main` prints an error and exits
with 1 if and only if some element of some result is not the one it should be. -/
theorem verification_iff (hbuffers : constructBuffers fails clientPid m n k = some buffers)
    (mappings : Mappings buffers) (mem : Memory) :
    ∃ v, verify mappings.rawPointer clientPid m n buffers k mem = some v ∧
      ((v.output ≠ [] ∧ v.status = 1) ↔ ∃ b < k, Differs mappings m n mem b) ∧
      ((v.output = [] ∧ v.status = 0) ↔ ¬ ∃ b < k, Differs mappings m n mem b) := by
  have hstart : Verified mappings m n mem [] { mem := mem, output := [], errorFound := false } :=
    ⟨fun _ _ _ _ _ _ => rfl, by simp, by simp⟩
  obtain ⟨v, hrun, hverified⟩ := hstart.run hbuffers fun b (hb : b ∈ upTo 0 k) => (mem_upTo.mp hb).2
  rw [List.nil_append] at hverified
  have hdiffers : v.errorFound = true ↔ ∃ b < k, Differs mappings m n mem b := by
    rw [hverified.errorFound]
    simp only [mem_upTo, UInt32.zero_le, true_and]
  have houtput := hverified.output
  refine ⟨v, hrun, ?_, ?_⟩
  · rw [← hdiffers, houtput, Verification.status]
    cases v.errorFound <;> decide
  · rw [← hdiffers, ← not_not (a := v.output = []), ← Ne, houtput, Verification.status]
    cases v.errorFound <;> decide

/-- A client with one matrix of two by two, whose result is a copy of the matrix. -/
theorem verification_of_copy :
    ∃ buffers v, constructBuffers (fun _ _ => false) 7 1 1 1 = some buffers ∧
      ∃ mappings : Mappings buffers,
        verify mappings.rawPointer 7 1 1 buffers 1 (fun a => UInt64.ofNat (a % 4)) = some v ∧
        v.output ≠ [] ∧ v.status = 1 := by
  obtain ⟨buffers, hbuffers⟩ : ∃ buffers, constructBuffers (fun _ _ => false) 7 1 1 1 =
      some buffers := ⟨_, rfl⟩
  let address (buffer : SharedMatrixBuffer) : Nat :=
    if buffer.nameSuffix = matrixBufNameSuffix then 0
    else if buffer.nameSuffix = trMatrixBufNameSuffix then 4
    else 8
  have hapart : ∀ v v', ∀ a ∈ buffers v, ∀ b ∈ buffers v', a ≠ b →
      address a + a.mappedElements ≤ address b ∨ address b + b.mappedElements ≤ address a := by
    cases hbuffers
    intro v v'
    cases v <;> cases v' <;> decide +kernel
  obtain ⟨v, hrun, hiff, -⟩ := verification_iff hbuffers { rawPointer := address, apart := hapart }
    fun a => UInt64.ofNat (a % 4)
  refine ⟨buffers, v, hbuffers, { rawPointer := address, apart := hapart }, hrun, ?_⟩
  rw [hiff]
  cases hbuffers
  refine ⟨0, by decide, _, _, rfl, rfl, 0, by decide, 1, by decide, ?_⟩
  simp only [address, BufferVector.nameSuffix]
  decide +kernel

end TransposeClient

end MatrixTransposer
