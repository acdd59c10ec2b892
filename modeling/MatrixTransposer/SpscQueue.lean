import MatrixTransposer.Lib.Ring
import Mathlib.Data.UInt

/-!
# What the two single-producer single-consumer queues share

`SpscQueueRingBuffer` and `SpscQueueSeqLock` check their capacity in the same way, keep the same
two indices over the same flexible array, and advance an index with the same mask. They differ in
the accesses by which they publish an item, which is what their own modules model.
-/

namespace MatrixTransposer

/-- The checks of both constructors. `std::atomic<size_t>` is always lock-free on the platforms the
build supports, so the first check of the source never throws. -/
def checkCapacity (capacity : UInt64) : Except String Unit :=
  if capacity < 2 then .error "Capacity must be at least 2"
  else if capacity &&& (capacity - 1) ≠ 0 then .error "Capacity must be a power of 2"
  else .ok ()

/-- `GetRealCapacity`, the value of `m_CapacityMinusOne`. -/
def realCapacity (capacity : UInt64) : UInt64 := capacity - 1

/-- `(index + 1) & m_CapacityMinusOne` -/
def nextIndex (capacity index : UInt64) : UInt64 := (index + 1) &&& (capacity - 1)

/-- The part of `QueueData` that both queues have: the indices and the flexible array `buffer`. -/
structure QueueSlots where
  head : UInt64
  tail : UInt64
  buffer : Nat → UInt32

/-- The zero-filled object of the producer's constructor. -/
def QueueSlots.zero : QueueSlots := { head := 0, tail := 0, buffer := fun _ => 0 }

namespace QueueSlots

def storeSlot (q : QueueSlots) (index : UInt64) (item : UInt32) : QueueSlots :=
  { q with buffer := Function.update q.buffer index.toNat item }

def storeHead (q : QueueSlots) (head : UInt64) : QueueSlots := { q with head := head }

def storeTail (q : QueueSlots) (tail : UInt64) : QueueSlots := { q with tail := tail }

/-- The items between the two indices, oldest first. -/
def items (capacity : UInt64) (q : QueueSlots) : List UInt32 :=
  Lib.Ring.contents capacity.toNat q.head.toNat q.tail.toNat q.buffer

structure Bounded (capacity : UInt64) (q : QueueSlots) : Prop where
  head_lt : q.head.toNat < capacity.toNat
  tail_lt : q.tail.toNat < capacity.toNat

end QueueSlots

/-! ## Accepted capacities -/

section Capacity

variable {capacity : UInt64}

theorem checkCapacity_eq_ok_iff :
    checkCapacity capacity = .ok () ↔
      2 ≤ capacity.toNat ∧ capacity.toNat &&& (capacity.toNat - 1) = 0 := by
  have hand : capacity &&& (capacity - 1) = 0 ↔
      capacity.toNat &&& (capacity - 1).toNat = 0 := by
    rw [← UInt64.toNat_inj, UInt64.toNat_and, UInt64.toNat_zero]
  have hlt : capacity < 2 ↔ capacity.toNat < 2 := UInt64.lt_iff_toNat_lt
  unfold checkCapacity
  by_cases hsmall : capacity < 2
  · have hnat := hlt.mp hsmall
    simp only [hsmall, if_true, reduceCtorEq, false_iff]
    omega
  · have hnat : 2 ≤ capacity.toNat := by
      have := mt hlt.mpr hsmall
      omega
    have hsub : (capacity - 1).toNat = capacity.toNat - 1 :=
      UInt64.toNat_sub_of_le _ _ (UInt64.le_iff_toNat_le.mpr (by
        rw [UInt64.toNat_one]
        omega))
    rw [if_neg hsmall, ← hsub, ← hand]
    by_cases hpow : capacity &&& (capacity - 1) = 0 <;> simp [hpow, hnat]

/-- The constructors accept exactly the powers of two from two on. -/
theorem checkCapacity_eq_ok_iff_pow :
    checkCapacity capacity = .ok () ↔ ∃ k, 1 ≤ k ∧ capacity.toNat = 2 ^ k := by
  rw [checkCapacity_eq_ok_iff]
  constructor
  · rintro ⟨htwo, hand⟩
    obtain ⟨k, hk⟩ := (Nat.and_sub_one_eq_zero_iff_isPowerOfTwo (by omega)).mp hand
    refine ⟨k, ?_, hk⟩
    by_contra hzero
    have : k = 0 := by omega
    subst this
    omega
  · rintro ⟨k, hk, hpow⟩
    have htwo : 2 ^ 1 ≤ 2 ^ k := Nat.pow_le_pow_right (by decide) hk
    exact ⟨by omega, (Nat.and_sub_one_eq_zero_iff_isPowerOfTwo (by omega)).mpr ⟨k, hpow⟩⟩

variable (hcap : checkCapacity capacity = .ok ())
include hcap

theorem two_le_capacity : 2 ≤ capacity.toNat :=
  (checkCapacity_eq_ok_iff.mp hcap).1

theorem realCapacity_toNat : (realCapacity capacity).toNat = capacity.toNat - 1 := by
  have htwo := two_le_capacity hcap
  exact UInt64.toNat_sub_of_le _ _ (UInt64.le_iff_toNat_le.mpr (by
    rw [UInt64.toNat_one]
    omega))

/-- Masking an index is stepping round the ring. -/
theorem nextIndex_toNat {index : UInt64} (hindex : index.toNat < capacity.toNat) :
    (nextIndex capacity index).toNat = Lib.Ring.next capacity.toNat index.toNat := by
  obtain ⟨k, _, hpow⟩ := checkCapacity_eq_ok_iff_pow.mp hcap
  have hsize : capacity.toNat < 2 ^ 64 := capacity.toNat_lt
  have hsucc : (index + 1).toNat = index.toNat + 1 := by
    rw [UInt64.toNat_add, UInt64.toNat_one, Nat.mod_eq_of_lt (by omega)]
  rw [nextIndex, UInt64.toNat_and, hsucc]
  change _ &&& (realCapacity capacity).toNat = _
  rw [realCapacity_toNat hcap, hpow, Nat.and_two_pow_sub_one_eq_mod, Lib.Ring.next]

theorem nextIndex_lt {index : UInt64} (hindex : index.toNat < capacity.toNat) :
    (nextIndex capacity index).toNat < capacity.toNat := by
  have htwo := two_le_capacity hcap
  rw [nextIndex_toNat hcap hindex]
  exact Lib.Ring.next_lt (by omega) _

theorem nextIndex_inj {i j : UInt64} (hi : i.toNat < capacity.toNat)
    (hj : j.toNat < capacity.toNat) (h : nextIndex capacity i = nextIndex capacity j) : i = j := by
  apply UInt64.toNat_inj.mp
  apply Lib.Ring.next_inj hi hj
  rw [← nextIndex_toNat hcap hi, ← nextIndex_toNat hcap hj, h]

theorem nextIndex_ne_self {index : UInt64} (hindex : index.toNat < capacity.toNat) :
    nextIndex capacity index ≠ index := by
  have htwo := two_le_capacity hcap
  intro heq
  have hnext := nextIndex_toNat hcap hindex
  rw [heq] at hnext
  rcases Lib.Ring.next_cases hindex with ⟨_, hcase⟩ | ⟨_, hcase⟩ <;> omega

end Capacity

/-! ## How the stores move the items -/

namespace QueueSlots

variable {capacity : UInt64} {q : QueueSlots}

theorem bounded_zero (hcap : checkCapacity capacity = .ok ()) : zero.Bounded capacity := by
  have htwo := two_le_capacity hcap
  constructor <;> simp only [zero, UInt64.toNat_zero] <;> omega

@[simp] theorem items_zero : zero.items capacity = [] := by
  simp [items, zero, Lib.Ring.contents, Lib.Ring.used]

theorem length_items_lt (hq : q.Bounded capacity) : (q.items capacity).length < capacity.toNat := by
  rw [items, Lib.Ring.length_contents]
  exact Lib.Ring.used_lt hq.head_lt

theorem length_items_le (hcap : checkCapacity capacity = .ok ()) (hq : q.Bounded capacity) :
    (q.items capacity).length ≤ (realCapacity capacity).toNat := by
  have hlt := length_items_lt hq
  rw [realCapacity_toNat hcap]
  omega

theorem items_eq_nil_iff (hq : q.Bounded capacity) : q.items capacity = [] ↔ q.tail = q.head := by
  rw [items, Lib.Ring.contents_eq_nil_iff hq.tail_lt, UInt64.toNat_inj]

/-- The full test of both `Enqueue`s. -/
theorem nextIndex_eq_tail_iff (hcap : checkCapacity capacity = .ok ()) (hq : q.Bounded capacity) :
    nextIndex capacity q.head = q.tail ↔
      (q.items capacity).length = (realCapacity capacity).toNat := by
  rw [← UInt64.toNat_inj, nextIndex_toNat hcap hq.head_lt,
    Lib.Ring.next_eq_tail_iff hq.head_lt hq.tail_lt, items, Lib.Ring.length_contents,
    realCapacity_toNat hcap]

/-- A slot that was free stays free when the tail moves on. -/
theorem nextIndex_head_ne (hcap : checkCapacity capacity = .ok ()) (hq : q.Bounded capacity)
    (hne : q.tail ≠ q.head) : nextIndex capacity q.head ≠ nextIndex capacity q.tail := by
  intro heq
  exact hne (nextIndex_inj hcap hq.head_lt hq.tail_lt heq).symm

/-- The oldest item is not in the slot the producer writes. -/
theorem buffer_storeSlot_tail (hne : q.tail ≠ q.head) (item : UInt32) :
    (q.storeSlot q.head item).buffer q.tail.toNat = q.buffer q.tail.toNat := by
  apply Function.update_of_ne
  intro heq
  exact hne (UInt64.toNat_inj.mp heq)

theorem Bounded.storeSlot (hq : q.Bounded capacity) (index : UInt64) (item : UInt32) :
    (q.storeSlot index item).Bounded capacity :=
  ⟨hq.head_lt, hq.tail_lt⟩

theorem Bounded.storeHead (hcap : checkCapacity capacity = .ok ()) (hq : q.Bounded capacity) :
    (q.storeHead (nextIndex capacity q.head)).Bounded capacity :=
  ⟨nextIndex_lt hcap hq.head_lt, hq.tail_lt⟩

theorem Bounded.storeTail (hcap : checkCapacity capacity = .ok ()) (hq : q.Bounded capacity) :
    (q.storeTail (nextIndex capacity q.tail)).Bounded capacity :=
  ⟨hq.head_lt, nextIndex_lt hcap hq.tail_lt⟩

theorem items_storeSlot (hq : q.Bounded capacity) (item : UInt32) :
    (q.storeSlot q.head item).items capacity = q.items capacity :=
  Lib.Ring.contents_update_head hq.head_lt hq.tail_lt _ _

theorem items_storeHead (hcap : checkCapacity capacity = .ok ()) (hq : q.Bounded capacity)
    (hroom : nextIndex capacity q.head ≠ q.tail) :
    (q.storeHead (nextIndex capacity q.head)).items capacity =
      q.items capacity ++ [q.buffer q.head.toNat] := by
  have hnext := nextIndex_toNat hcap hq.head_lt
  have hroom' : Lib.Ring.next capacity.toNat q.head.toNat ≠ q.tail.toNat := by
    rw [← hnext]
    exact fun heq => hroom (UInt64.toNat_inj.mp heq)
  change Lib.Ring.contents _ (nextIndex capacity q.head).toNat _ _ = _
  rw [hnext]
  exact Lib.Ring.contents_next_head hq.head_lt hq.tail_lt hroom' _

/-- The two stores of an `Enqueue`, taken together. -/
theorem items_storeSlot_storeHead (hcap : checkCapacity capacity = .ok ())
    (hq : q.Bounded capacity) (hroom : nextIndex capacity q.head ≠ q.tail) (item : UInt32) :
    ((q.storeSlot q.head item).storeHead (nextIndex capacity q.head)).items capacity =
      q.items capacity ++ [item] := by
  have hwritten : (q.storeSlot q.head item).buffer q.head.toNat = item := Function.update_self _ _ _
  calc ((q.storeSlot q.head item).storeHead (nextIndex capacity q.head)).items capacity
      = (q.storeSlot q.head item).items capacity ++
          [(q.storeSlot q.head item).buffer q.head.toNat] :=
        items_storeHead hcap (hq.storeSlot q.head item) hroom
    _ = q.items capacity ++ [item] := by rw [items_storeSlot hq, hwritten]

theorem items_storeTail (hcap : checkCapacity capacity = .ok ()) (hq : q.Bounded capacity)
    (hne : q.tail ≠ q.head) :
    q.items capacity = q.buffer q.tail.toNat ::
      (q.storeTail (nextIndex capacity q.tail)).items capacity := by
  have hne' : q.tail.toNat ≠ q.head.toNat := fun heq => hne (UInt64.toNat_inj.mp heq)
  change _ = _ :: Lib.Ring.contents _ _ (nextIndex capacity q.tail).toNat _
  rw [nextIndex_toNat hcap hq.tail_lt]
  exact Lib.Ring.contents_next_tail hq.head_lt hq.tail_lt hne' _

end QueueSlots

end MatrixTransposer
