import MatrixTransposer.Proof.DeploymentContexts
import Mathlib.Order.Interval.Set.Basic

/-!
# The words of the buffers

Every word that anyone writes belongs to a buffer: the constructors of a client write into its own
buffers, its verification into its references, and the threads of the server into the result of the
request that is being served.
-/

namespace MatrixTransposer

open Lib

/-! ## What is written outside `TransposeTiledMultiThreaded` -/

namespace SharedMatrixBuffer

variable {fails : Bool} {ownerPid m n k : UInt32} {nameSuffix : String}
  {buffer : SharedMatrixBuffer}

theorem toNat_elementCount (h : construct fails ownerPid m n k nameSuffix = some buffer) :
    buffer.elementCount.toNat = buffer.mappedElements := by
  obtain ⟨-, -, hrows, hcolumns, -⟩ := construct_eq_some h
  rw [mappedElements_eq h, elementCount, hrows, hcolumns]

theorem fillWithRandom_of_outside (rawPointer : Nat) (mem : Memory) (dist : Nat → UInt64) {a : Nat}
    (ha : a ∉ Set.Ico rawPointer (rawPointer + buffer.elementCount.toNat)) :
    buffer.fillWithRandom rawPointer mem dist a = mem a := by
  have hne : ∀ i ∈ List.range buffer.elementCount.toNat, a ≠ rawPointer + i := by
    rintro i hi rfl
    exact ha ⟨Nat.le_add_right _ _, Nat.add_lt_add_left (List.mem_range.mp hi) _⟩
  rw [fillWithRandom]
  generalize List.range buffer.elementCount.toNat = indices at hne
  induction indices generalizing mem with
  | nil => rfl
  | cons i indices ih =>
      rw [List.foldl_cons, ih _ fun j hj => hne j (List.mem_cons_of_mem _ hj)]
      exact Function.update_of_ne (hne i List.mem_cons_self) _ _

theorem fillWithZero_of_outside (rawPointer : Nat) (mem : Memory) {a : Nat}
    (ha : a ∉ Set.Ico rawPointer (rawPointer + buffer.mappedElements)) :
    buffer.fillWithZero rawPointer mem a = mem a :=
  if_neg ha

end SharedMatrixBuffer

namespace TransposeClient

variable {fails : BufferVector → UInt32 → Bool} {clientPid m n k : UInt32}
  {buffers : ClientBuffers} {rawPointer : SharedMatrixBuffer → Nat}

theorem exists_constructed (h : constructBuffers fails clientPid m n k = some buffers) {b : UInt32}
    (hb : b < k) (v : BufferVector) :
    ∃ buffer, (buffers v)[b.toNat]? = some buffer ∧
      SharedMatrixBuffer.construct false clientPid m n b v.nameSuffix = some buffer :=
  exists_buffer hb (map_some_of_constructBuffers h v)

theorem fillBuffers_of_outside (h : constructBuffers fails clientPid m n k = some buffers)
    (dist : UInt32 → Nat → UInt64) {a : Nat}
    (ha : ∀ v, ∀ buffer ∈ buffers v,
      a ∉ Set.Ico (rawPointer buffer) (rawPointer buffer + buffer.mappedElements))
    (mem : Memory) : fillBuffers rawPointer dist buffers k mem a = mem a := by
  rw [fillBuffers]
  induction pushes k generalizing mem with
  | nil => rfl
  | cons push rest ih =>
      obtain ⟨v, b⟩ := push
      rw [List.foldl_cons, ih]
      cases hget : (buffers v)[b.toNat]? with
      | none => rfl
      | some buffer =>
          have hmem : buffer ∈ buffers v := List.mem_of_getElem? hget
          have hout := ha v buffer hmem
          obtain ⟨b', -, hconstruct⟩ := construct_of_mem h hmem
          cases v with
          | matrixBuffers =>
              apply SharedMatrixBuffer.fillWithRandom_of_outside
              rwa [SharedMatrixBuffer.toNat_elementCount hconstruct]
          | matrixBuffersTr | matrixBuffersTrReference =>
              exact SharedMatrixBuffer.fillWithZero_of_outside _ _ hout

/-- The verification writes the references only. -/
theorem verify_of_outside (h : constructBuffers fails clientPid m n k = some buffers) {mem : Memory}
    {v : Verification} (hverify : verify rawPointer clientPid m n buffers k mem = some v) {a : Nat}
    (ha : ∀ reference ∈ buffers .matrixBuffersTrReference,
      a ∉ Set.Ico (rawPointer reference) (rawPointer reference + reference.mappedElements)) :
    v.mem a = mem a := by
  rw [verify] at hverify
  have hindices : ∀ b ∈ upTo 0 k, b < k := fun b hb => (mem_upTo.mp hb).2
  revert hverify
  generalize upTo 0 k = indices at hindices
  suffices hrun : ∀ start : Verification,
      indices.foldlM (verifyIndex rawPointer clientPid m n buffers) start = some v →
        v.mem a = start.mem a from hrun _
  induction indices with
  | nil =>
      intro start hstart
      cases hstart
      rfl
  | cons b indices ih =>
      intro start hstart
      rw [List.foldlM_cons] at hstart
      obtain ⟨next, hnext, hrest⟩ := Option.bind_eq_some_iff.mp hstart
      rw [ih (fun b' hb' => hindices b' (List.mem_cons_of_mem _ hb')) next hrest]
      obtain ⟨hm, hn, hsum⟩ := add_lt_of_constructBuffers h (hindices b List.mem_cons_self)
      have hsize : ((1 : UInt32) <<< m).toNat * ((1 : UInt32) <<< n).toNat < 2 ^ 32 := by
        rw [toNat_one_shiftLeft hm, toNat_one_shiftLeft hn, ← Nat.pow_add]
        exact Nat.pow_lt_pow_right (by decide) hsum
      unfold verifyIndex at hnext
      split at hnext
      case h_2 => cases hnext
      case h_1 matrix tr reference _ _ href =>
        cases hnext
        have hmem := List.mem_of_getElem? href
        have hout := ha reference hmem
        rw [mappedElements_of_mem h hmem, ← toNat_one_shiftLeft hm, ← toNat_one_shiftLeft hn,
          Set.mem_Ico] at hout
        have hkept : transposeNaive (rawPointer matrix) (rawPointer reference) (1 <<< m) (1 <<< n)
            start.mem a = start.mem a :=
          transposeNaive_of_outside hsize.le _ (by omega)
        rw [verifyBuffer]
        split
        · exact hkept
        · exact hkept

end TransposeClient

namespace Deployment

open TransposeClient (BufferVector ClientBuffers Verification)

variable {cfg : Config} {s t : State} {pid pid' b b' : UInt32} {vector vector' : BufferVector}

/-! ## Regions -/

/-- The client's arguments are such that its buffers can be constructed. -/
def Config.Constructs (cfg : Config) (pid : UInt32) : Prop :=
  ∃ fails buffers, TransposeClient.constructBuffers fails pid (cfg.arguments pid).m
    (cfg.arguments pid).n (cfg.arguments pid).k = some buffers

abbrev Config.elements (cfg : Config) (pid : UInt32) : Nat :=
  2 ^ (cfg.arguments pid).m.toNat * 2 ^ (cfg.arguments pid).n.toNat

/-- The words of a buffer of the client. -/
def Config.region (cfg : Config) (pid : UInt32) (vector : BufferVector) (b : UInt32) : Set Nat :=
  Set.Ico (cfg.address pid vector b) (cfg.address pid vector b + cfg.elements pid)

theorem address_of_construct {buffer : SharedMatrixBuffer}
    (h : SharedMatrixBuffer.construct false pid (cfg.arguments pid).m (cfg.arguments pid).n b
      vector.nameSuffix = some buffer) : cfg.address pid vector b = cfg.rawPointer buffer := by
  simp only [Config.address, h]

theorem Config.Constructs.bounds (h : cfg.Constructs pid) (hb : b < (cfg.arguments pid).k) :
    (cfg.arguments pid).m < 32 ∧ (cfg.arguments pid).n < 32 ∧
      (cfg.arguments pid).m.toNat + (cfg.arguments pid).n.toNat < 32 := by
  obtain ⟨fails, buffers, hbuffers⟩ := h
  exact TransposeClient.add_lt_of_constructBuffers hbuffers hb

theorem Config.Constructs.elements_lt (h : cfg.Constructs pid) (hb : b < (cfg.arguments pid).k) :
    cfg.elements pid < 2 ^ 32 := by
  rw [Config.elements, ← Nat.pow_add]
  exact Nat.pow_lt_pow_right (by decide) (h.bounds hb).2.2

theorem Config.Constructs.exists_buffer (h : cfg.Constructs pid) (hb : b < (cfg.arguments pid).k)
    (vector : BufferVector) :
    ∃ buffer, SharedMatrixBuffer.construct false pid (cfg.arguments pid).m (cfg.arguments pid).n b
        vector.nameSuffix = some buffer ∧ buffer.mappedElements = cfg.elements pid := by
  obtain ⟨fails, buffers, hbuffers⟩ := h
  obtain ⟨buffer, hget, hconstruct⟩ := TransposeClient.exists_constructed hbuffers hb vector
  exact ⟨buffer, hconstruct,
    TransposeClient.mappedElements_of_mem hbuffers (List.mem_of_getElem? hget)⟩

theorem nameSuffix_injective : Function.Injective BufferVector.nameSuffix := by
  intro v v' h
  cases v <;> cases v' <;> first | rfl | exact absurd h (by decide)

/-- No word belongs to two buffers. -/
theorem eq_of_mem_region (h : cfg.Constructs pid) (hb : b < (cfg.arguments pid).k)
    (h' : cfg.Constructs pid') (hb' : b' < (cfg.arguments pid').k) {a : Nat}
    (ha : a ∈ cfg.region pid vector b) (ha' : a ∈ cfg.region pid' vector' b') :
    pid = pid' ∧ vector = vector' ∧ b = b' := by
  obtain ⟨buffer, hbuffer, hsize⟩ := h.exists_buffer hb vector
  obtain ⟨buffer', hbuffer', hsize'⟩ := h'.exists_buffer hb' vector'
  rw [Config.region, address_of_construct hbuffer, Set.mem_Ico] at ha
  rw [Config.region, address_of_construct hbuffer', Set.mem_Ico] at ha'
  have heq : buffer = buffer' := by
    by_contra hne
    have hapart := cfg.apart buffer buffer' ⟨pid, vector, b, hbuffer⟩ ⟨pid', vector', b', hbuffer'⟩
      hne
    omega
  obtain ⟨-, hpid, -, -, hindex, hsuffix, -⟩ := SharedMatrixBuffer.construct_eq_some hbuffer
  obtain ⟨-, hpid', -, -, hindex', hsuffix', -⟩ := SharedMatrixBuffer.construct_eq_some hbuffer'
  subst heq
  exact ⟨hpid.symm.trans hpid', nameSuffix_injective (hsuffix.symm.trans hsuffix'),
    hindex.symm.trans hindex'⟩

theorem mem_region_matrix {i j : Nat} (hi : i < 2 ^ (cfg.arguments pid).m.toNat)
    (hj : j < 2 ^ (cfg.arguments pid).n.toNat) :
    cfg.address pid vector b + (i * 2 ^ (cfg.arguments pid).n.toNat + j) ∈
      cfg.region pid vector b :=
  ⟨Nat.le_add_right _ _, Nat.add_lt_add_left (index_lt hi hj) _⟩

theorem mem_region_result {i j : Nat} (hi : i < 2 ^ (cfg.arguments pid).m.toNat)
    (hj : j < 2 ^ (cfg.arguments pid).n.toNat) :
    cfg.address pid vector b + (j * 2 ^ (cfg.arguments pid).m.toNat + i) ∈
      cfg.region pid vector b := by
  refine ⟨Nat.le_add_right _ _, Nat.add_lt_add_left ?_ _⟩
  rw [Config.elements, Nat.mul_comm (2 ^ (cfg.arguments pid).m.toNat)]
  exact index_lt hj hi

/-! ## Views -/

theorem matrixAt_congr {mem mem' : Memory}
    (h : ∀ a ∈ cfg.region pid .matrixBuffers b, mem' a = mem a) :
    cfg.matrixAt mem' pid b = cfg.matrixAt mem pid b := by
  apply Matrix.ext
  intro i j
  exact h _ (mem_region_matrix i.isLt j.isLt)

theorem resultAt_congr {mem mem' : Memory}
    (h : ∀ a ∈ cfg.region pid .matrixBuffersTr b, mem' a = mem a) :
    cfg.resultAt mem' pid b = cfg.resultAt mem pid b := by
  apply Matrix.ext
  intro j i
  exact h _ (mem_region_result i.isLt j.isLt)

/-! ## What each step writes -/

theorem constructs_of_buffers (h : (machine cfg).Reachable s) {buffers : ClientBuffers}
    (hbuffers : s.buffers pid = some buffers) : cfg.Constructs pid := by
  obtain ⟨-, fails, hconstruct⟩ := (clientFacts_of_reachable h pid).buffers buffers hbuffers
  exact ⟨fails, buffers, hconstruct⟩

/-- A buffer that a client has constructed is a region of its own. -/
theorem region_of_mem {fails : BufferVector → UInt32 → Bool} {buffers : ClientBuffers}
    (h : TransposeClient.constructBuffers fails pid (cfg.arguments pid).m (cfg.arguments pid).n
      (cfg.arguments pid).k = some buffers) {buffer : SharedMatrixBuffer}
    (hmem : buffer ∈ buffers vector) :
    ∃ b < (cfg.arguments pid).k, cfg.region pid vector b =
      Set.Ico (cfg.rawPointer buffer) (cfg.rawPointer buffer + buffer.mappedElements) := by
  obtain ⟨b, hb, hconstruct⟩ := TransposeClient.construct_of_mem h hmem
  refine ⟨b, hb, ?_⟩
  rw [Config.region, address_of_construct hconstruct, TransposeClient.mappedElements_of_mem h hmem]

theorem memory_of_constructed {throws : Bool} {fails : BufferVector → UInt32 → Bool}
    {dist : UInt32 → Nat → UInt64} {buffers : ClientBuffers} {memory : Memory}
    (h : constructed cfg s pid throws fails dist = some (buffers, memory)) {a : Nat}
    (ha : ∀ vector, ∀ b < (cfg.arguments pid).k, a ∉ cfg.region pid vector b) :
    memory a = s.memory a := by
  obtain ⟨hbuffers, rfl⟩ := constructed_eq_some h
  apply TransposeClient.fillBuffers_of_outside hbuffers
  intro vector buffer hmem
  obtain ⟨b, hb, hregion⟩ := region_of_mem hbuffers hmem
  rw [← hregion]
  exact ha vector b hb

theorem memory_of_verify (h : (machine cfg).Reachable s) {buffers : ClientBuffers}
    {v : Verification} (hbuffers : s.buffers pid = some buffers)
    (hverify : TransposeClient.verify cfg.rawPointer pid (cfg.arguments pid).m
      (cfg.arguments pid).n buffers (cfg.arguments pid).k s.memory = some v) {a : Nat}
    (ha : ∀ b < (cfg.arguments pid).k, a ∉ cfg.region pid .matrixBuffersTrReference b) :
    v.mem a = s.memory a := by
  obtain ⟨-, fails, hconstruct⟩ := (clientFacts_of_reachable h pid).buffers buffers hbuffers
  apply TransposeClient.verify_of_outside hconstruct hverify
  intro reference hmem
  obtain ⟨b, hb, hregion⟩ := region_of_mem hconstruct hmem
  rw [← hregion]
  exact ha b hb

end Deployment

end MatrixTransposer
