import MatrixTransposer.Proof.SeqLockInvariant

/-!
# `SpscQueueSeqLock` delivers in order

A successful `Enqueue` takes effect when it stores the head, one access before it returns. The
answers are a history of the bounded queue up to that one access: the item of an open section counts
as held but not yet as enqueued. It cannot be delivered in that window either, so what is dequeued
is a prefix of what the returned `Enqueue`s have put in.
-/

namespace MatrixTransposer.SpscQueueSeqLock

open Lib

variable {capacity : UInt64} {s t : State} {a : Action}

/-- The operation that takes effect with this access, if one does. -/
def effects (s : State) : Action → List (FifoOp UInt32)
  | .producer =>
      match s.producer with
      | .loadTail item _ nextHead =>
          if nextHead = s.data.tail then [.enqueue item false] else []
      | .storeHead item _ => [.enqueue item true]
      | _ => []
  | .consumer =>
      match s.consumer with
      | .storeTail item _ => [.dequeue (some item)]
      | _ => []
  | _ => []

/-- The item whose `Enqueue` has taken effect and not returned. -/
def pending : EnqueuePc → List UInt32
  | .closeSeq item => [item]
  | _ => []

/-- One access does to the held items what the operation that takes effect with it says. -/
theorem step_simulates (hcap : checkCapacity capacity = .ok ()) (hs : Inv capacity s)
    (h : step capacity s a = some t) :
    (boundedFifo UInt32 (realCapacity capacity).toNat).exec (s.data.items capacity) (effects s a) =
      some (t.data.items capacity) := by
  have hle := QueueSlots.length_items_le hcap hs.bounded
  have hfull_iff := QueueSlots.nextIndex_eq_tail_iff hcap hs.bounded
  obtain ⟨hbounded, hproducer, hconsumer, _⟩ := hs
  cases move_of_step h with
  | loadHead hpc => rfl
  | full hpc hfull =>
      rw [hpc] at hproducer
      have hlen := hfull_iff.mp (hproducer.2 ▸ hfull)
      simp only [effects, hpc, if_pos hfull]
      exact Machine.exec_singleton.mpr (boundedFifo.step_enqueue_refused (by omega))
  | room hpc hroom => simp [effects, hpc, hroom]
  | openSeq hpc =>
      simp only [effects, hpc]
      rfl
  | storeSlot hpc =>
      rw [hpc] at hproducer
      obtain ⟨rfl, _⟩ := hproducer
      simp only [effects, hpc, Machine.exec_nil]
      exact congrArg some (QueueSlots.items_storeSlot hbounded _).symm
  | storeHead hpc =>
      rw [hpc] at hproducer
      obtain ⟨rfl, hroom, rfl⟩ := hproducer
      have hlen := mt hfull_iff.mpr hroom
      simp only [effects, hpc]
      refine Machine.exec_singleton.mpr ((boundedFifo.step_enqueue_accepted (by omega)).trans ?_)
      exact congrArg some (QueueSlots.items_storeHead hcap hbounded hroom).symm
  | closeSeq hpc =>
      simp only [effects, hpc]
      rfl
  | dequeue hpc => rfl
  | empty hpc _ | occupied hpc _ | odd hpc _ | even hpc _ | loadSlot hpc | unmoved hpc _
  | moved hpc _ => simp [effects, hpc]
  | storeTail hpc =>
      rw [hpc] at hconsumer
      obtain ⟨rfl, hne, rfl, _⟩ := hconsumer
      simp only [effects, hpc, QueueSlots.items_storeTail hcap hbounded hne]
      exact Machine.exec_singleton.mpr boundedFifo.step_dequeue_cons

/-! ### Answers and effects -/

theorem dequeued_effects (s : State) (a : Action) :
    FifoOp.dequeued (effects s a) = FifoOp.dequeued (returns s a) := by
  cases a with
  | producer => cases hpc : s.producer <;> simp [effects, returns, hpc]
  | consumer => cases hpc : s.consumer <;> simp [effects, returns, hpc] <;> split <;> simp
  | _ => rfl

theorem pending_append_enqueued (h : step capacity s a = some t) :
    pending s.producer ++ FifoOp.enqueued (effects s a) =
      FifoOp.enqueued (returns s a) ++ pending t.producer := by
  cases move_of_step h with
  | loadHead hpc => simp [effects, returns, hpc, pending]
  | full hpc hfull => simp [effects, returns, hpc, hfull, pending]
  | room hpc hroom => simp [effects, returns, hpc, hroom, pending]
  | openSeq hpc | storeSlot hpc | storeHead hpc | closeSeq hpc =>
      simp [effects, returns, hpc, pending]
  | dequeue hpc => simp [effects, returns]
  | empty hpc hempty => simp [effects, returns, hpc, hempty]
  | occupied hpc hne => simp [effects, returns, hpc, hne]
  | odd hpc hodd => simp [effects, returns, hpc, hodd]
  | even hpc heven => simp [effects, returns, hpc, heven]
  | loadSlot hpc => simp [effects, returns, hpc]
  | unmoved hpc hseq => simp [effects, returns, hpc, hseq]
  | moved hpc hseq => simp [effects, returns, hpc, hseq]
  | storeTail hpc => simp [effects, returns, hpc]

/-- What has been enqueued, and the item of an open section, is what has been dequeued followed by
what is held. -/
def Accounted (capacity : UInt64) (s : State) (enqueued dequeued : List UInt32) : Prop :=
  enqueued ++ pending s.producer = dequeued ++ s.data.items capacity

theorem accounted_step (hcap : checkCapacity capacity = .ok ()) (hs : Inv capacity s)
    {enqueued dequeued : List UInt32} (haccounted : Accounted capacity s enqueued dequeued)
    (h : step capacity s a = some t) :
    Accounted capacity t (enqueued ++ FifoOp.enqueued (returns s a))
      (dequeued ++ FifoOp.dequeued (returns s a)) := by
  have hfifo := boundedFifo.enqueued_eq_dequeued_append (step_simulates hcap hs h)
  rw [dequeued_effects] at hfifo
  unfold Accounted at haccounted ⊢
  calc enqueued ++ FifoOp.enqueued (returns s a) ++ pending t.producer
      = enqueued ++ pending s.producer ++ FifoOp.enqueued (effects s a) := by
        rw [List.append_assoc, ← pending_append_enqueued h, List.append_assoc]
    _ = dequeued ++ (s.data.items capacity ++ FifoOp.enqueued (effects s a)) := by
        rw [haccounted, List.append_assoc]
    _ = dequeued ++ FifoOp.dequeued (returns s a) ++ t.data.items capacity := by
        rw [hfifo, List.append_assoc]

/-- The item of an open section is still held, so it has not been delivered. -/
theorem prefix_of_accounted {enqueued dequeued : List UInt32}
    (h : Accounted capacity s enqueued dequeued) (hs : Inv capacity s) : dequeued <+: enqueued := by
  have hproducer := hs.producer
  unfold Accounted at h
  cases hpc : s.producer with
  | closeSeq item =>
      rw [hpc] at hproducer h
      obtain ⟨older, hitems⟩ := hproducer
      rw [hitems, ← List.append_assoc] at h
      exact ⟨older, (List.append_cancel_right h).symm⟩
  | _ =>
      rw [hpc] at h
      exact ⟨s.data.items capacity, by simpa [pending] using h.symm⟩

theorem accounted_of_exec (hcap : checkCapacity capacity = .ok ()) {seq : UInt64}
    (hseq : seq.toNat % 2 = 0) {acts : List Action}
    (hrun : (machine capacity).exec (initial seq) acts = some s) :
    Accounted capacity s (FifoOp.enqueued ((machine capacity).trace returns (initial seq) acts))
      (FifoOp.dequeued ((machine capacity).trace returns (initial seq) acts)) := by
  let Kept (s : State) (history : List (FifoOp UInt32)) : Prop :=
    Inv capacity s ∧ Accounted capacity s (FifoOp.enqueued history) (FifoOp.dequeued history)
  have hstart : Kept (initial seq) [] := by
    have hitems : (initial seq).data.items capacity = [] := QueueSlots.items_zero
    refine ⟨inv_initial hcap hseq, ?_⟩
    rw [Accounted, hitems]
    rfl
  have hkeep : ∀ s history a t, Kept s history → step capacity s a = some t →
      Kept t (history ++ returns s a) := by
    intro s history a t hs hstep
    refine ⟨inv_step hcap hs.1 hstep, ?_⟩
    rw [FifoOp.enqueued_append, FifoOp.dequeued_append]
    exact accounted_step hcap hs.1 hs.2 hstep
  exact (Machine.exec_trace_invariant hkeep hstart hrun).2

theorem dequeued_prefix_enqueued (hcap : checkCapacity capacity = .ok ()) {seq : UInt64}
    (hseq : seq.toNat % 2 = 0) {acts : List Action}
    (hrun : (machine capacity).exec (initial seq) acts = some s) :
    FifoOp.dequeued ((machine capacity).trace returns (initial seq) acts) <+:
      FifoOp.enqueued ((machine capacity).trace returns (initial seq) acts) :=
  prefix_of_accounted (accounted_of_exec hcap hseq hrun) (inv_of_exec hcap hseq hrun)

theorem length_items_of_refused (hcap : checkCapacity capacity = .ok ()) (hs : Inv capacity s)
    {item : UInt32} (h : .enqueue item false ∈ returns s a) :
    (s.data.items capacity).length = (realCapacity capacity).toNat := by
  cases a with
  | producer =>
      have hproducer := hs.producer
      cases hpc : s.producer with
      | loadTail item' head nextHead =>
          rw [hpc] at hproducer
          have hfull : nextHead = s.data.tail := by
            by_contra hne
            simp [returns, hpc, hne] at h
          rw [← QueueSlots.nextIndex_eq_tail_iff hcap hs.bounded, ← hproducer.2, hfull]
      | _ => simp [returns, hpc] at h
  | consumer =>
      cases hpc : s.consumer <;> simp [returns, hpc] at h
  | _ => simp [returns] at h

theorem seq_odd_iff (hs : Inv capacity s) :
    s.data.seq.toNat % 2 = 1 ↔ inSection s.producer = true := by
  rw [hs.parity]
  cases inSection s.producer <;> simp

end MatrixTransposer.SpscQueueSeqLock
