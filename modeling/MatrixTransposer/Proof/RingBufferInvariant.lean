import MatrixTransposer.SpscQueueRingBuffer

/-!
# What each side of `SpscQueueRingBuffer` knows

A side works on a copy of the other's index that may be out of date. The copy is never wrong in the
dangerous direction: the free slot the producer has seen stays free, because only the producer fills
slots, and the item the consumer has seen stays there, because only the consumer takes items. These
two facts, and that each side's copy of its own index is exact, are the invariant.
-/

namespace MatrixTransposer.SpscQueueRingBuffer

variable {capacity : UInt64} {s t : State} {a : Action}

/-- The accesses, one constructor each, with what the access has seen. -/
inductive Move (capacity : UInt64) (s : State) : Action → State → Prop where
  | loadHead {item : UInt32} (hpc : s.producer = .idle) :
      Move capacity s (.enqueue item)
        { s with producer := .loadTail item s.data.head (nextIndex capacity s.data.head) }
  | full {item : UInt32} {head nextHead : UInt64} (hpc : s.producer = .loadTail item head nextHead)
      (hfull : nextHead = s.data.tail) :
      Move capacity s .producer { s with producer := .idle }
  | room {item : UInt32} {head nextHead : UInt64} (hpc : s.producer = .loadTail item head nextHead)
      (hroom : nextHead ≠ s.data.tail) :
      Move capacity s .producer { s with producer := .storeSlot item head nextHead }
  | storeSlot {item : UInt32} {head nextHead : UInt64}
      (hpc : s.producer = .storeSlot item head nextHead) :
      Move capacity s .producer
        { s with data := s.data.storeSlot head item, producer := .storeHead item nextHead }
  | storeHead {item : UInt32} {nextHead : UInt64} (hpc : s.producer = .storeHead item nextHead) :
      Move capacity s .producer { s with data := s.data.storeHead nextHead, producer := .idle }
  | loadTail (hpc : s.consumer = .idle) :
      Move capacity s .dequeue { s with consumer := .loadHead s.data.tail }
  | empty {tail : UInt64} (hpc : s.consumer = .loadHead tail) (hempty : tail = s.data.head) :
      Move capacity s .consumer { s with consumer := .idle }
  | occupied {tail : UInt64} (hpc : s.consumer = .loadHead tail) (hne : tail ≠ s.data.head) :
      Move capacity s .consumer { s with consumer := .loadSlot tail }
  | loadSlot {tail : UInt64} (hpc : s.consumer = .loadSlot tail) :
      Move capacity s .consumer
        { s with consumer := .storeTail tail (s.data.buffer tail.toNat) }
  | storeTail {tail : UInt64} {item : UInt32} (hpc : s.consumer = .storeTail tail item) :
      Move capacity s .consumer
        { s with data := s.data.storeTail (nextIndex capacity tail), consumer := .idle }

theorem move_of_step (h : step capacity s a = some t) : Move capacity s a t := by
  cases a with
  | enqueue item =>
      obtain ⟨hpc, rfl⟩ := by simpa [step] using h
      exact .loadHead hpc
  | dequeue =>
      obtain ⟨hpc, rfl⟩ := by simpa [step] using h
      exact .loadTail hpc
  | producer =>
      obtain ⟨⟨data, pc⟩, hstep, rfl⟩ := Option.map_eq_some_iff.mp h
      cases hpc : s.producer with
      | idle => simp [enqueueStep, hpc] at hstep
      | loadTail item head nextHead =>
          by_cases hfull : nextHead = s.data.tail
          · obtain ⟨rfl, rfl⟩ := by simpa [enqueueStep, hpc, hfull] using hstep
            exact .full hpc hfull
          · obtain ⟨rfl, rfl⟩ := by simpa [enqueueStep, hpc, hfull] using hstep
            exact .room hpc hfull
      | storeSlot item head nextHead =>
          obtain ⟨rfl, rfl⟩ := by simpa [enqueueStep, hpc] using hstep
          exact .storeSlot hpc
      | storeHead item nextHead =>
          obtain ⟨rfl, rfl⟩ := by simpa [enqueueStep, hpc] using hstep
          exact .storeHead hpc
  | consumer =>
      obtain ⟨⟨data, pc⟩, hstep, rfl⟩ := Option.map_eq_some_iff.mp h
      cases hpc : s.consumer with
      | idle => simp [dequeueStep, hpc] at hstep
      | loadHead tail =>
          by_cases hempty : tail = s.data.head
          · obtain ⟨rfl, rfl⟩ := by simpa [dequeueStep, hpc, hempty] using hstep
            exact .empty hpc hempty
          · obtain ⟨rfl, rfl⟩ := by simpa [dequeueStep, hpc, hempty] using hstep
            exact .occupied hpc hempty
      | loadSlot tail =>
          obtain ⟨rfl, rfl⟩ := by simpa [dequeueStep, hpc] using hstep
          exact .loadSlot hpc
      | storeTail tail item =>
          obtain ⟨rfl, rfl⟩ := by simpa [dequeueStep, hpc] using hstep
          exact .storeTail hpc

def ProducerFacts (capacity : UInt64) (data : QueueSlots) : EnqueuePc → Prop
  | .idle => True
  | .loadTail _ head nextHead => head = data.head ∧ nextHead = nextIndex capacity data.head
  | .storeSlot _ head nextHead =>
      head = data.head ∧ nextHead = nextIndex capacity data.head ∧ nextHead ≠ data.tail
  | .storeHead item nextHead =>
      nextHead = nextIndex capacity data.head ∧ nextHead ≠ data.tail ∧
        data.buffer data.head.toNat = item

def ConsumerFacts (data : QueueSlots) : DequeuePc → Prop
  | .idle => True
  | .loadHead tail => tail = data.tail
  | .loadSlot tail => tail = data.tail ∧ tail ≠ data.head
  | .storeTail tail item => tail = data.tail ∧ tail ≠ data.head ∧ data.buffer tail.toNat = item

structure Inv (capacity : UInt64) (s : State) : Prop where
  bounded : s.data.Bounded capacity
  producer : ProducerFacts capacity s.data s.producer
  consumer : ConsumerFacts s.data s.consumer

theorem inv_initial (hcap : checkCapacity capacity = .ok ()) : Inv capacity initial :=
  ⟨QueueSlots.bounded_zero hcap, trivial, trivial⟩

/-! ### Interference

What one side knows survives the stores of the other. -/

section Interference

variable {data : QueueSlots}

theorem ProducerFacts.storeTail (hcap : checkCapacity capacity = .ok ())
    (hq : data.Bounded capacity) (hne : data.tail ≠ data.head) {pc : EnqueuePc}
    (h : ProducerFacts capacity data pc) :
    ProducerFacts capacity (data.storeTail (nextIndex capacity data.tail)) pc := by
  have hfree := QueueSlots.nextIndex_head_ne hcap hq hne
  cases pc with
  | idle => trivial
  | loadTail item head nextHead => exact h
  | storeSlot item head nextHead =>
      obtain ⟨hhead, hnext, _⟩ := h
      exact ⟨hhead, hnext, hnext ▸ hfree⟩
  | storeHead item nextHead =>
      obtain ⟨hnext, _, hitem⟩ := h
      exact ⟨hnext, hnext ▸ hfree, hitem⟩

theorem ConsumerFacts.storeSlot {pc : DequeuePc} (h : ConsumerFacts data pc) (item : UInt32) :
    ConsumerFacts (data.storeSlot data.head item) pc := by
  cases pc with
  | idle => trivial
  | loadHead tail => exact h
  | loadSlot tail => exact h
  | storeTail tail item' =>
      obtain ⟨rfl, hne, hitem⟩ := h
      exact ⟨rfl, hne, (QueueSlots.buffer_storeSlot_tail hne item).trans hitem⟩

/-- A queue that was not empty does not become empty when the head moves on. -/
theorem ConsumerFacts.storeHead (hroom : nextIndex capacity data.head ≠ data.tail)
    {pc : DequeuePc} (h : ConsumerFacts data pc) :
    ConsumerFacts (data.storeHead (nextIndex capacity data.head)) pc := by
  cases pc with
  | idle => trivial
  | loadHead tail => exact h
  | loadSlot tail =>
      obtain ⟨htail, _⟩ := h
      exact ⟨htail, htail ▸ hroom.symm⟩
  | storeTail tail item =>
      obtain ⟨htail, _, hitem⟩ := h
      exact ⟨htail, htail ▸ hroom.symm, hitem⟩

end Interference

theorem inv_step (hcap : checkCapacity capacity = .ok ()) (hs : Inv capacity s)
    (h : step capacity s a = some t) : Inv capacity t := by
  obtain ⟨hbounded, hproducer, hconsumer⟩ := hs
  cases move_of_step h with
  | loadHead hpc => exact ⟨hbounded, ⟨rfl, rfl⟩, hconsumer⟩
  | full hpc hfull => exact ⟨hbounded, trivial, hconsumer⟩
  | room hpc hroom =>
      rw [hpc] at hproducer
      exact ⟨hbounded, ⟨hproducer.1, hproducer.2, hroom⟩, hconsumer⟩
  | storeSlot hpc =>
      rw [hpc] at hproducer
      obtain ⟨rfl, hnext, hroom⟩ := hproducer
      exact ⟨hbounded.storeSlot _ _, ⟨hnext, hroom, Function.update_self _ _ _⟩,
        hconsumer.storeSlot _⟩
  | storeHead hpc =>
      rw [hpc] at hproducer
      obtain ⟨rfl, hroom, _⟩ := hproducer
      exact ⟨hbounded.storeHead hcap, trivial, hconsumer.storeHead hroom⟩
  | loadTail hpc => exact ⟨hbounded, hproducer, rfl⟩
  | empty hpc hempty => exact ⟨hbounded, hproducer, trivial⟩
  | occupied hpc hne =>
      rw [hpc] at hconsumer
      exact ⟨hbounded, hproducer, hconsumer, hne⟩
  | loadSlot hpc =>
      rw [hpc] at hconsumer
      exact ⟨hbounded, hproducer, hconsumer.1, hconsumer.2, rfl⟩
  | storeTail hpc =>
      rw [hpc] at hconsumer
      obtain ⟨rfl, hne, _⟩ := hconsumer
      exact ⟨hbounded.storeTail hcap, hproducer.storeTail hcap hbounded hne, trivial⟩

theorem inv_of_reachable (hcap : checkCapacity capacity = .ok ())
    (hs : (machine capacity).Reachable s) : Inv capacity s := by
  refine hs.invariant (I := Inv capacity) ?_ fun _ _ _ hinv hstep => inv_step hcap hinv hstep
  rintro _ rfl
  exact inv_initial hcap

end MatrixTransposer.SpscQueueRingBuffer
