import MatrixTransposer.Proof.RingBufferInvariant
import MatrixTransposer.Proof.SeqLockInvariant
import MatrixTransposer.SpscQueueBuffer

/-!
# The slots lie in the mapped memory

An index stays below the capacity, so what is left to ask is whether `CalculateBufferSize` makes
room for as many slots. Rounding up past the next line it does, unless the size wraps; and then it
comes out smaller than the slots need, since it wraps by less than a line more than they do. The
check of the capacity does not exclude this, and the calls do get to the last slot: an item put in
and taken out moves both indices on by one.
-/

namespace MatrixTransposer

open Lib

variable {capacity : UInt64}

/-! ### The size -/

theorem toNat_lineSize_pos (cacheLineSize : UInt64) : 0 < (lineSize cacheLineSize).toNat := by
  unfold lineSize
  split
  case isTrue => decide
  case isFalse hne =>
      apply Nat.pos_of_ne_zero
      exact fun hzero => hne (UInt64.toNat_inj.mp hzero)

section Size

variable {sizeofQueueData cacheLineSize : UInt64}

theorem toNat_bufferSize (hslots : sizeofQueueData.toNat + capacity.toNat * 4 < 2 ^ 64) :
    (bufferSize sizeofQueueData capacity cacheLineSize).toNat =
      ((sizeofQueueData.toNat + capacity.toNat * 4) / (lineSize cacheLineSize).toNat + 1) *
        (lineSize cacheLineSize).toNat % 2 ^ 64 := by
  have hmul : (capacity * 4).toNat = capacity.toNat * 4 := by
    rw [UInt64.toNat_mul]
    exact Nat.mod_eq_of_lt (show capacity.toNat * 4 < 2 ^ 64 by omega)
  have hadd : (sizeofQueueData + capacity * 4).toNat =
      sizeofQueueData.toNat + capacity.toNat * 4 := by
    rw [UInt64.toNat_add, hmul, Nat.mod_eq_of_lt hslots]
  rw [bufferSize, UInt64.toNat_mul, UInt64.toNat_add, UInt64.toNat_div, hadd, UInt64.toNat_one,
    Nat.mod_mul_mod]

theorem slots_lt_roundUp (sizeofQueueData capacity cacheLineSize : UInt64) :
    sizeofQueueData.toNat + capacity.toNat * 4 <
      ((sizeofQueueData.toNat + capacity.toNat * 4) / (lineSize cacheLineSize).toNat + 1) *
        (lineSize cacheLineSize).toNat := by
  rw [Nat.mul_comm _ (lineSize cacheLineSize).toNat]
  exact Nat.lt_mul_div_succ _ (toNat_lineSize_pos cacheLineSize)

theorem slotInRegion_of_lt (hfits : BufferSizeFits sizeofQueueData capacity cacheLineSize)
    {slot : UInt64} (hslot : slot.toNat < capacity.toNat) :
    SlotInRegion sizeofQueueData (bufferSize sizeofQueueData capacity cacheLineSize) slot := by
  have hround := slots_lt_roundUp sizeofQueueData capacity cacheLineSize
  rw [SlotInRegion, toNat_bufferSize (Nat.lt_trans hround hfits), Nat.mod_eq_of_lt hfits]
  omega

/-- A size that has wrapped leaves out the last slot. -/
theorem fits_of_last_slot (hcap : checkCapacity capacity = .ok ())
    (hlast : SlotInRegion sizeofQueueData (bufferSize sizeofQueueData capacity cacheLineSize)
      (realCapacity capacity)) :
    BufferSizeFits sizeofQueueData capacity cacheLineSize := by
  have htwo := two_le_capacity hcap
  rw [SlotInRegion, realCapacity_toNat hcap] at hlast
  have hsize := UInt64.toNat_lt (bufferSize sizeofQueueData capacity cacheLineSize)
  rw [toNat_bufferSize (by omega)] at hlast
  have hline := UInt64.toNat_lt (lineSize cacheLineSize)
  rw [BufferSizeFits]
  generalize hslots : sizeofQueueData.toNat + capacity.toNat * 4 = slots at hlast ⊢
  have hround : (slots / (lineSize cacheLineSize).toNat + 1) * (lineSize cacheLineSize).toNat ≤
      slots + (lineSize cacheLineSize).toNat := by
    rw [Nat.succ_mul]
    exact Nat.add_le_add_right (Nat.div_mul_le_self _ _) _
  by_contra hwrap
  omega

end Size

/-! ### The indices the calls use -/

/-- From one index to the next the calls get to every index. -/
theorem forall_index (hcap : checkCapacity capacity = .ok ()) {P : Nat → Prop} (hzero : P 0)
    (hnext : ∀ index : UInt64, index.toNat < capacity.toNat → P index.toNat →
      P (nextIndex capacity index).toNat) {i : Nat} (hi : i < capacity.toNat) : P i := by
  induction i with
  | zero => exact hzero
  | succ i ih =>
      have hsize := capacity.toNat_lt
      have hindex : (UInt64.ofNat i).toNat = i :=
        UInt64.toNat_ofNat_of_lt' (show i < 2 ^ 64 by omega)
      have hstep := hnext (UInt64.ofNat i) (by omega) (by rw [hindex]; exact ih (by omega))
      rwa [nextIndex_toNat hcap (by omega), hindex, Ring.next, Nat.mod_eq_of_lt hi] at hstep

namespace SpscQueueRingBuffer

variable {s : State}

theorem accessedSlots_lt (hs : Inv capacity s) {slot : UInt64} (hslot : slot ∈ accessedSlots s) :
    slot.toNat < capacity.toNat := by
  obtain ⟨hbounded, hproducer, hconsumer⟩ := hs
  rcases List.mem_append.mp hslot with hslot | hslot
  · cases hpc : s.producer with
    | storeSlot item head nextHead =>
        rw [hpc] at hproducer hslot
        rw [List.mem_singleton.mp hslot, hproducer.1]
        exact hbounded.head_lt
    | _ => simp [hpc] at hslot
  · cases hpc : s.consumer with
    | loadSlot tail =>
        rw [hpc] at hconsumer hslot
        rw [List.mem_singleton.mp hslot, hconsumer.1]
        exact hbounded.tail_lt
    | _ => simp [hpc] at hslot

/-- Nobody is in a call, and the queue is empty at the index `i`. -/
structure EmptyAt (s : State) (i : Nat) : Prop where
  head : s.data.head.toNat = i
  tail : s.data.tail = s.data.head
  producer : s.producer = .idle
  consumer : s.consumer = .idle

/-- An item put in and taken out. -/
theorem exec_round {i : Nat} (hs : EmptyAt s i)
    (hroom : nextIndex capacity s.data.head ≠ s.data.head) :
    (machine capacity).exec s (.enqueue 0 :: List.replicate 3 .producer ++
        .dequeue :: List.replicate 3 .consumer) =
      some ⟨((s.data.storeSlot s.data.head 0).storeHead (nextIndex capacity s.data.head)).storeTail
        (nextIndex capacity s.data.head), .idle, .idle⟩ := by
  obtain ⟨-, htail, hproducer, hconsumer⟩ := hs
  simp [Machine.exec, machine, step, enqueueStep, dequeueStep, List.replicate, htail, hproducer,
    hconsumer, hroom, hroom.symm, QueueSlots.storeSlot, QueueSlots.storeHead, QueueSlots.storeTail]

/-- The calls get to every index. -/
theorem reachable_emptyAt (hcap : checkCapacity capacity = .ok ()) {i : Nat}
    (hi : i < capacity.toNat) : ∃ s, (machine capacity).Reachable s ∧ EmptyAt s i := by
  apply forall_index hcap (P := fun i => ∃ s, (machine capacity).Reachable s ∧ EmptyAt s i) _ _ hi
  · exact ⟨initial, .of_init rfl, rfl, rfl, rfl, rfl⟩
  · rintro index hindex ⟨s, hs, hempty⟩
    have hhead : s.data.head = index := UInt64.toNat_inj.mp hempty.head
    subst hhead
    exact ⟨_, hs.exec (exec_round hempty (nextIndex_ne_self hcap hindex)), rfl, rfl, rfl, rfl⟩

/-- From there an `Enqueue` writes the slot of that index. -/
theorem reachable_accessedSlot (hcap : checkCapacity capacity = .ok ()) {slot : UInt64}
    (hslot : slot.toNat < capacity.toNat) :
    ∃ s, (machine capacity).Reachable s ∧ slot ∈ accessedSlots s := by
  obtain ⟨s, hs, hhead, htail, hproducer, hconsumer⟩ := reachable_emptyAt hcap hslot
  have hhead : s.data.head = slot := UInt64.toNat_inj.mp hhead
  have hroom := nextIndex_ne_self hcap hslot
  have hrun : (machine capacity).exec s [.enqueue 0, .producer] =
      some { s with producer := .storeSlot 0 slot (nextIndex capacity slot) } := by
    simp [Machine.exec, machine, step, enqueueStep, htail, hproducer, hhead, hroom]
  exact ⟨_, hs.exec hrun, List.mem_append_left _ (List.mem_singleton.mpr rfl)⟩

end SpscQueueRingBuffer

namespace SpscQueueSeqLock

variable {s : State}

theorem inv_of_reachable (hcap : checkCapacity capacity = .ok ())
    (hs : (machine capacity).Reachable s) : Inv capacity s := by
  obtain ⟨_, acts, rfl, hrun⟩ := hs
  exact inv_of_exec hcap (show (0 : UInt64).toNat % 2 = 0 from rfl) hrun

theorem accessedSlots_lt (hs : Inv capacity s) {slot : UInt64} (hslot : slot ∈ accessedSlots s) :
    slot.toNat < capacity.toNat := by
  obtain ⟨hbounded, hproducer, hconsumer, -⟩ := hs
  rcases List.mem_append.mp hslot with hslot | hslot
  · cases hpc : s.producer with
    | storeSlot item head nextHead =>
        rw [hpc] at hproducer hslot
        rw [List.mem_singleton.mp hslot, hproducer.1]
        exact hbounded.head_lt
    | _ => simp [hpc] at hslot
  · cases hpc : s.consumer with
    | loadSlot tail seqStart =>
        rw [hpc] at hconsumer hslot
        rw [List.mem_singleton.mp hslot, hconsumer.1]
        exact hbounded.tail_lt
    | _ => simp [hpc] at hslot

structure EmptyAt (s : State) (i : Nat) : Prop where
  head : s.data.head.toNat = i
  tail : s.data.tail = s.data.head
  seq : s.data.seq % 2 = 0
  producer : s.producer = .idle
  consumer : s.consumer = .idle

/-- An item put in and taken out. The counter is even again when the `Dequeue` starts. -/
theorem exec_round {i : Nat} (hs : EmptyAt s i)
    (hroom : nextIndex capacity s.data.head ≠ s.data.head) :
    (machine capacity).exec s (.enqueue 0 :: List.replicate 5 .producer ++
        .dequeue :: List.replicate 5 .consumer) =
      some ⟨((((s.data.fetchAddSeq.storeSlot s.data.head 0).storeHead
        (nextIndex capacity s.data.head)).fetchAddSeq).storeTail
          (nextIndex capacity s.data.head)), .idle, .idle⟩ := by
  obtain ⟨-, htail, hseq, hproducer, hconsumer⟩ := hs
  have hclosed := even_add_two hseq
  simp [Machine.exec, machine, step, enqueueStep, dequeueStep, List.replicate, htail, hclosed,
    hproducer, hconsumer, hroom, hroom.symm, QueueSlots.storeSlot, QueueSlots.storeHead,
    QueueSlots.storeTail, QueueData.storeSlot, QueueData.storeHead, QueueData.storeTail,
    QueueData.fetchAddSeq]

theorem reachable_emptyAt (hcap : checkCapacity capacity = .ok ()) {i : Nat}
    (hi : i < capacity.toNat) : ∃ s, (machine capacity).Reachable s ∧ EmptyAt s i := by
  apply forall_index hcap (P := fun i => ∃ s, (machine capacity).Reachable s ∧ EmptyAt s i) _ _ hi
  · exact ⟨initial 0, .of_init rfl, rfl, rfl, rfl, rfl, rfl⟩
  · rintro index hindex ⟨s, hs, hempty⟩
    have hhead : s.data.head = index := UInt64.toNat_inj.mp hempty.head
    subst hhead
    exact ⟨_, hs.exec (exec_round hempty (nextIndex_ne_self hcap hindex)), rfl, rfl,
      even_add_two hempty.seq, rfl, rfl⟩

theorem reachable_accessedSlot (hcap : checkCapacity capacity = .ok ()) {slot : UInt64}
    (hslot : slot.toNat < capacity.toNat) :
    ∃ s, (machine capacity).Reachable s ∧ slot ∈ accessedSlots s := by
  obtain ⟨s, hs, hhead, htail, -, hproducer, hconsumer⟩ := reachable_emptyAt hcap hslot
  have hhead : s.data.head = slot := UInt64.toNat_inj.mp hhead
  have hroom := nextIndex_ne_self hcap hslot
  have hrun : (machine capacity).exec s [.enqueue 0, .producer, .producer] =
      some { s with
        data := s.data.fetchAddSeq, producer := .storeSlot 0 slot (nextIndex capacity slot) } := by
    simp [Machine.exec, machine, step, enqueueStep, htail, hproducer, hhead, hroom]
  exact ⟨_, hs.exec hrun, List.mem_append_left _ (List.mem_singleton.mpr rfl)⟩

end SpscQueueSeqLock

/-! ### Main result -/

/-- **The mapped memory holds the slots unless its size wraps.** Every slot that a run of
`SpscQueueSeqLock` accesses lies in the memory it has mapped exactly if the size was computed
without wrapping, and so for `SpscQueueRingBuffer`. -/
theorem slots_in_region_iff (hcap : checkCapacity capacity = .ok ()) (cacheLineSize : UInt64) :
    ((∀ s, (SpscQueueSeqLock.machine capacity).Reachable s →
        ∀ slot ∈ SpscQueueSeqLock.accessedSlots s,
          SlotInRegion SpscQueueSeqLock.sizeofQueueData
            (SpscQueueSeqLock.calculateBufferSize capacity cacheLineSize) slot) ↔
        BufferSizeFits SpscQueueSeqLock.sizeofQueueData capacity cacheLineSize) ∧
      ((∀ s, (SpscQueueRingBuffer.machine capacity).Reachable s →
        ∀ slot ∈ SpscQueueRingBuffer.accessedSlots s,
          SlotInRegion SpscQueueRingBuffer.sizeofQueueData
            (SpscQueueRingBuffer.calculateBufferSize capacity cacheLineSize) slot) ↔
        BufferSizeFits SpscQueueRingBuffer.sizeofQueueData capacity cacheLineSize) := by
  have hlast : (realCapacity capacity).toNat < capacity.toNat := by
    have htwo := two_le_capacity hcap
    rw [realCapacity_toNat hcap]
    omega
  refine ⟨⟨fun hregion => ?_, fun hfits s hs slot hslot => ?_⟩,
    ⟨fun hregion => ?_, fun hfits s hs slot hslot => ?_⟩⟩
  · obtain ⟨s, hs, hslot⟩ := SpscQueueSeqLock.reachable_accessedSlot hcap hlast
    exact fits_of_last_slot hcap (hregion s hs _ hslot)
  · exact slotInRegion_of_lt hfits
      (SpscQueueSeqLock.accessedSlots_lt (SpscQueueSeqLock.inv_of_reachable hcap hs) hslot)
  · obtain ⟨s, hs, hslot⟩ := SpscQueueRingBuffer.reachable_accessedSlot hcap hlast
    exact fits_of_last_slot hcap (hregion s hs _ hslot)
  · exact slotInRegion_of_lt hfits
      (SpscQueueRingBuffer.accessedSlots_lt (SpscQueueRingBuffer.inv_of_reachable hcap hs) hslot)

/-- Sixteen slots behind three lines of 64 bytes. -/
theorem slots_in_region_sixteen :
    (∀ s, (SpscQueueSeqLock.machine 16).Reachable s →
        ∀ slot ∈ SpscQueueSeqLock.accessedSlots s,
          SlotInRegion SpscQueueSeqLock.sizeofQueueData
            (SpscQueueSeqLock.calculateBufferSize 16 64) slot) ∧
      SpscQueueSeqLock.calculateBufferSize 16 64 = 320 :=
  ⟨(slots_in_region_iff (show checkCapacity 16 = .ok () by decide) 64).1.mpr (by decide),
    by decide⟩

/-- The slots of the capacity `2 ^ 62` take `2 ^ 64` bytes, which count as none: what is mapped are
the three lines of the other members and one more, and the seventeenth slot is behind them. -/
theorem wrapped_size_misses_slots :
    checkCapacity 4611686018427387904 = .ok () ∧
      SpscQueueSeqLock.calculateBufferSize 4611686018427387904 64 = 256 ∧
      ∃ s, (SpscQueueSeqLock.machine 4611686018427387904).Reachable s ∧
        (16 : UInt64) ∈ SpscQueueSeqLock.accessedSlots s ∧
        ¬ SlotInRegion SpscQueueSeqLock.sizeofQueueData
          (SpscQueueSeqLock.calculateBufferSize 4611686018427387904 64) 16 := by
  have hcap : checkCapacity 4611686018427387904 = .ok () := by decide
  have hlt : (16 : UInt64).toNat < (4611686018427387904 : UInt64).toNat := by decide
  obtain ⟨s, hs, hslot⟩ := SpscQueueSeqLock.reachable_accessedSlot hcap hlt
  exact ⟨hcap, by decide, s, hs, hslot, by decide⟩

end MatrixTransposer
