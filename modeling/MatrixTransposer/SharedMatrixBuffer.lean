import Mathlib.Data.UInt
import Mathlib.Tactic.Common

/-!
# `SharedMemory` and `SharedMatrixBuffer`

What a process holds once the constructors have returned. A constructor that throws yields nothing;
that a system call fails is a decision of the environment, except that `mmap` always refuses a
length of zero.
-/

namespace MatrixTransposer

structure SharedMemory where
  sizeInBytes : UInt64
  mapped : 0 < sizeInBytes
  deriving DecidableEq

def SharedMemory.construct (fails : Bool) (sizeInBytes : UInt64) : Option SharedMemory :=
  if h : fails = false ∧ 0 < sizeInBytes then some { sizeInBytes := sizeInBytes, mapped := h.2 }
  else none

structure SharedMatrixBuffer where
  ownerPid : UInt32
  numRows : UInt32
  numColumns : UInt32
  bufferIndex : UInt32
  nameSuffix : String
  sharedMemory : SharedMemory
  deriving DecidableEq

namespace SharedMatrixBuffer

/-- `1UL << m`, truncated to `uint32_t`. The processor takes the shift count modulo 64. -/
def dimension (m : UInt32) : UInt32 := ((1 : UInt64) <<< m.toUInt64).toUInt32

/-- `m_NumRows * m_NumColumns * sizeof(uint64_t)`: the first product is taken in `uint32_t`. -/
def bufferSizeInBytes (numRows numColumns : UInt32) : UInt64 := (numRows * numColumns).toUInt64 * 8

def construct (fails : Bool) (ownerPid m n k : UInt32) (nameSuffix : String) :
    Option SharedMatrixBuffer :=
  (SharedMemory.construct fails (bufferSizeInBytes (dimension m) (dimension n))).map fun memory =>
    { ownerPid := ownerPid, numRows := dimension m, numColumns := dimension n, bufferIndex := k,
      nameSuffix := nameSuffix, sharedMemory := memory }

/-- The 64-bit elements the mapping holds. -/
def mappedElements (buffer : SharedMatrixBuffer) : Nat := buffer.sharedMemory.sizeInBytes.toNat / 8

theorem toNat_dimension {m : UInt32} (hm : m < 32) : (dimension m).toNat = 2 ^ m.toNat := by
  rw [UInt32.lt_iff_toNat_lt] at hm
  have hpow : 2 ^ m.toNat < 2 ^ 32 := Nat.pow_lt_pow_right (by decide) hm
  rw [dimension, UInt64.toNat_toUInt32, UInt64.toNat_shiftLeft, UInt32.toNat_toUInt64,
    UInt64.toNat_one, Nat.one_shiftLeft, Nat.mod_eq_of_lt (a := m.toNat) (by simp at hm; omega),
    Nat.mod_eq_of_lt (a := 2 ^ m.toNat) (by omega), Nat.mod_eq_of_lt hpow]

theorem toNat_bufferSizeInBytes (numRows numColumns : UInt32) :
    (bufferSizeInBytes numRows numColumns).toNat = (numRows * numColumns).toNat * 8 := by
  have hlt := (numRows * numColumns).toNat_lt
  rw [bufferSizeInBytes, UInt64.toNat_mul, UInt32.toNat_toUInt64]
  exact Nat.mod_eq_of_lt (by simp; omega)

variable {fails : Bool} {ownerPid m n k : UInt32} {nameSuffix : String}
  {buffer : SharedMatrixBuffer}

theorem construct_eq_some (h : construct fails ownerPid m n k nameSuffix = some buffer) :
    fails = false ∧ buffer.ownerPid = ownerPid ∧ buffer.numRows = dimension m ∧
      buffer.numColumns = dimension n ∧ buffer.bufferIndex = k ∧ buffer.nameSuffix = nameSuffix ∧
      buffer.sharedMemory.sizeInBytes = bufferSizeInBytes (dimension m) (dimension n) := by
  simp only [construct, SharedMemory.construct] at h
  split at h
  case isTrue hsize =>
    cases h
    exact ⟨hsize.1, rfl, rfl, rfl, rfl, rfl, rfl⟩
  case isFalse => cases h

theorem mappedElements_eq (h : construct fails ownerPid m n k nameSuffix = some buffer) :
    buffer.mappedElements = (dimension m * dimension n).toNat := by
  obtain ⟨-, -, -, -, -, -, hsize⟩ := construct_eq_some h
  rw [mappedElements, hsize, toNat_bufferSizeInBytes, Nat.mul_div_cancel _ (by decide)]

theorem mappedElements_pos (buffer : SharedMatrixBuffer) (m n : UInt32)
    (hsize : buffer.sharedMemory.sizeInBytes = bufferSizeInBytes (dimension m) (dimension n)) :
    0 < (dimension m * dimension n).toNat := by
  have hpos := UInt64.lt_iff_toNat_lt.mp buffer.sharedMemory.mapped
  rw [hsize, toNat_bufferSizeInBytes, UInt64.toNat_zero] at hpos
  omega

/-- A buffer that could be mapped has fewer than `2^32` elements. -/
theorem add_lt_of_construct (hm : m < 32) (hn : n < 32)
    (h : construct fails ownerPid m n k nameSuffix = some buffer) : m.toNat + n.toNat < 32 := by
  obtain ⟨-, -, -, -, -, -, hsize⟩ := construct_eq_some h
  have hpos := mappedElements_pos buffer m n hsize
  rw [UInt32.toNat_mul, toNat_dimension hm, toNat_dimension hn, ← Nat.pow_add] at hpos
  by_contra hge
  have hdvd : 2 ^ 32 ∣ 2 ^ (m.toNat + n.toNat) := Nat.pow_dvd_pow 2 (Nat.le_of_not_lt hge)
  rw [Nat.mod_eq_zero_of_dvd hdvd] at hpos
  exact Nat.lt_irrefl 0 hpos

theorem toNat_dimension_mul (hm : m < 32) (hn : n < 32) (hsum : m.toNat + n.toNat < 32) :
    (dimension m * dimension n).toNat = 2 ^ m.toNat * 2 ^ n.toNat := by
  rw [UInt32.toNat_mul, toNat_dimension hm, toNat_dimension hn, ← Nat.pow_add]
  exact Nat.mod_eq_of_lt (Nat.pow_lt_pow_right (by decide) hsum)

end SharedMatrixBuffer

end MatrixTransposer
