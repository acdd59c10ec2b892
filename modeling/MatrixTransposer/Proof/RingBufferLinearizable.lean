import MatrixTransposer.Proof.RingBufferInvariant

/-!
# `SpscQueueRingBuffer` is linearizable

Each call takes effect with the access it returns with: a successful `Enqueue` when it stores the
head, a successful `Dequeue` when it stores the tail, a refusal when it loads the other side's
index. The answers, in the order in which they are returned, are therefore themselves a history of
the bounded first-in first-out queue.
-/

namespace MatrixTransposer.SpscQueueRingBuffer

open Lib

variable {capacity : UInt64} {s t : State} {a : Action}

/-- `Enqueue` answers `false` only while `GetRealCapacity()` items are held. -/
theorem length_items_of_refused (hcap : checkCapacity capacity = .ok ()) (hs : Inv capacity s)
    {item : UInt32} (h : .enqueue item false ∈ returns s a) :
    (s.data.items capacity).length = (realCapacity capacity).toNat := by
  cases a with
  | producer =>
      have hproducer := hs.producer
      cases hpc : s.producer with
      | loadTail item' head nextHead =>
          rw [hpc] at hproducer
          have hfull : nextHead = s.data.tail := by
            by_contra hne
            simp [returns, hpc, hne] at h
          rw [← QueueSlots.nextIndex_eq_tail_iff hcap hs.bounded, ← hproducer.2, hfull]
      | _ => simp [returns, hpc] at h
  | consumer =>
      cases hpc : s.consumer with
      | loadHead tail => by_cases hne : tail = s.data.head <;> simp [returns, hpc, hne] at h
      | _ => simp [returns, hpc] at h
  | _ => simp [returns] at h

theorem items_of_dequeue_none (hs : Inv capacity s) (h : .dequeue none ∈ returns s a) :
    s.data.items capacity = [] := by
  cases a with
  | consumer =>
      have hconsumer := hs.consumer
      cases hpc : s.consumer with
      | loadHead tail =>
          rw [hpc] at hconsumer
          have hempty : tail = s.data.head := by
            by_contra hne
            simp [returns, hpc, hne] at h
          rw [QueueSlots.items_eq_nil_iff hs.bounded, ← hconsumer, hempty]
      | _ => simp [returns, hpc] at h
  | producer =>
      cases hpc : s.producer with
      | loadTail item head nextHead =>
          by_cases hne : nextHead = s.data.tail <;> simp [returns, hpc, hne] at h
      | _ => simp [returns, hpc] at h
  | _ => simp [returns] at h

/-- One access does to the held items exactly what the answer it returns says. -/
theorem step_simulates (hcap : checkCapacity capacity = .ok ()) (hs : Inv capacity s)
    (h : step capacity s a = some t) :
    (boundedFifo UInt32 (realCapacity capacity).toNat).exec (s.data.items capacity) (returns s a) =
      some (t.data.items capacity) := by
  have hle := QueueSlots.length_items_le hcap hs.bounded
  have hfull_iff := QueueSlots.nextIndex_eq_tail_iff hcap hs.bounded
  obtain ⟨hbounded, hproducer, hconsumer⟩ := hs
  cases move_of_step h with
  | loadHead hpc => rfl
  | full hpc hfull =>
      rw [hpc] at hproducer
      have hlen := hfull_iff.mp (hproducer.2 ▸ hfull)
      simp only [returns, hpc, if_pos hfull]
      exact Machine.exec_singleton.mpr (boundedFifo.step_enqueue_refused (by omega))
  | room hpc hroom => simp [returns, hpc, hroom]
  | storeSlot hpc =>
      rw [hpc] at hproducer
      obtain ⟨rfl, _⟩ := hproducer
      simp [returns, hpc, QueueSlots.items_storeSlot hbounded]
  | storeHead hpc =>
      rw [hpc] at hproducer
      obtain ⟨rfl, hroom, rfl⟩ := hproducer
      have hlen := mt hfull_iff.mpr hroom
      simp only [returns, hpc, QueueSlots.items_storeHead hcap hbounded hroom]
      exact Machine.exec_singleton.mpr (boundedFifo.step_enqueue_accepted (by omega))
  | loadTail hpc => rfl
  | empty hpc hempty =>
      rw [hpc] at hconsumer
      have hnil := (QueueSlots.items_eq_nil_iff hbounded).mpr (hconsumer ▸ hempty)
      simp only [returns, hpc, if_pos hempty, hnil]
      exact Machine.exec_singleton.mpr boundedFifo.step_dequeue_nil
  | occupied hpc hne => simp [returns, hpc, hne]
  | loadSlot hpc => simp [returns, hpc]
  | storeTail hpc =>
      rw [hpc] at hconsumer
      obtain ⟨rfl, hne, rfl⟩ := hconsumer
      simp only [returns, hpc, QueueSlots.items_storeTail hcap hbounded hne]
      exact Machine.exec_singleton.mpr boundedFifo.step_dequeue_cons

theorem exec_simulates (hcap : checkCapacity capacity = .ok ()) {acts : List Action}
    (hrun : (machine capacity).exec initial acts = some s) :
    (boundedFifo UInt32 (realCapacity capacity).toNat).exec []
      ((machine capacity).trace returns initial acts) = some (s.data.items capacity) := by
  have h := Machine.exec_simulates (N := boundedFifo UInt32 (realCapacity capacity).toNat)
    (I := Inv capacity) (fun _ _ _ hinv hstep => inv_step hcap hinv hstep)
    (fun _ _ _ hinv hstep => step_simulates hcap hinv hstep) (inv_initial hcap) hrun
  rwa [initial, QueueSlots.items_zero] at h

/-- **`SpscQueueRingBuffer` is linearizable** to the first-in first-out queue of `GetRealCapacity()`
items. The answers of any run are a legal sequential history that leads to the items held; so what
is dequeued is, in order, a prefix of what is enqueued, and never too many items are held. A refusal
is returned only at an instant at which the queue is full, respectively empty. -/
theorem ringBuffer_linearizable (hcap : checkCapacity capacity = .ok ()) {acts : List Action}
    (hrun : (machine capacity).exec initial acts = some s) :
    let history := (machine capacity).trace returns initial acts
    (boundedFifo UInt32 (realCapacity capacity).toNat).exec [] history =
        some (s.data.items capacity) ∧
      FifoOp.dequeued history <+: FifoOp.enqueued history ∧
      (s.data.items capacity).length ≤ (realCapacity capacity).toNat ∧
      (∀ a item, .enqueue item false ∈ returns s a →
        (s.data.items capacity).length = (realCapacity capacity).toNat) ∧
      (∀ a, .dequeue none ∈ returns s a → s.data.items capacity = []) := by
  have hs : Inv capacity s :=
    inv_of_reachable hcap ⟨initial, acts, rfl, hrun⟩
  have hhistory := exec_simulates hcap hrun
  exact ⟨hhistory, boundedFifo.dequeued_prefix_enqueued hhistory,
    QueueSlots.length_items_le hcap hs.bounded, fun _ _ h => length_items_of_refused hcap hs h,
    fun _ h => items_of_dequeue_none hs h⟩

theorem ringBuffer_linearizable_one_item :
    ∃ acts s, (machine 2).exec initial acts = some s ∧
      FifoOp.dequeued ((machine 2).trace returns initial acts) = [7] ∧
      FifoOp.dequeued ((machine 2).trace returns initial acts) <+:
        FifoOp.enqueued ((machine 2).trace returns initial acts) :=
  let acts := [.enqueue 7, .dequeue] ++ List.replicate 3 .producer ++
    [.enqueue 8, .producer] ++ List.replicate 3 .consumer
  ⟨acts, _, rfl, rfl, (ringBuffer_linearizable (show checkCapacity 2 = .ok () by decide)
    (show (machine 2).exec initial acts = some _ from rfl)).2.1⟩

end MatrixTransposer.SpscQueueRingBuffer
