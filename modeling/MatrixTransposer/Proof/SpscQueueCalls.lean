import MatrixTransposer.Proof.RingBufferLinearizable
import MatrixTransposer.Proof.SeqLockDequeue
import MatrixTransposer.SpscQueueCalls

/-!
# The two queues answer alike

Without overlap nothing a call has read is out of date when the call uses it, and the counter of the
sequence lock is even whenever a call starts. So each call does to the held items what the call of
the bounded queue does, whichever way the indices and the counter have wrapped.
-/

namespace MatrixTransposer

open Lib

variable {capacity : UInt64}

namespace SpscQueueRingBuffer

variable {s : State}

theorem call_enqueue (hcap : checkCapacity capacity = .ok ()) (hs : Inv capacity s)
    (hproducer : s.producer = .idle) (hconsumer : s.consumer = .idle) (item : UInt32) :
    ∃ t, call capacity s (.enqueue item) = some (t, (boundedFifo.call
          (realCapacity capacity).toNat (s.data.items capacity) (.enqueue item)).2) ∧
      t.data.items capacity = (boundedFifo.call
          (realCapacity capacity).toNat (s.data.items capacity) (.enqueue item)).1 ∧
      Inv capacity t ∧ t.producer = .idle ∧ t.consumer = .idle := by
  have hle := QueueSlots.length_items_le hcap hs.bounded
  have hfull_iff := QueueSlots.nextIndex_eq_tail_iff hcap hs.bounded
  by_cases hfull : nextIndex capacity s.data.head = s.data.tail
  · have hlen := hfull_iff.mp hfull
    rw [boundedFifo.call_enqueue_refused (by omega)]
    refine ⟨{ s with producer := .idle }, ?_, rfl, ⟨hs.bounded, trivial, hs.consumer⟩, rfl,
      hconsumer⟩
    simp [call, step, machine, Machine.finish, enqueueStep, returns, hproducer, hfull]
  · have hlen := mt hfull_iff.mpr hfull
    rw [boundedFifo.call_enqueue_accepted (by omega)]
    refine ⟨⟨(s.data.storeSlot s.data.head item).storeHead (nextIndex capacity s.data.head),
        .idle, .idle⟩, ?_, QueueSlots.items_storeSlot_storeHead hcap hs.bounded hfull item,
      ⟨(hs.bounded.storeSlot s.data.head item).storeHead hcap, trivial, trivial⟩, rfl, rfl⟩
    simp [call, step, machine, Machine.finish, enqueueStep, returns, hproducer, hconsumer, hfull]

/-- A `Dequeue` made alone depends on the indices only, so the producer may stand anywhere. -/
theorem call_dequeue (hcap : checkCapacity capacity = .ok ()) (hs : Inv capacity s)
    (hconsumer : s.consumer = .idle) :
    ∃ t, call capacity s .dequeue = some (t, (boundedFifo.call
          (realCapacity capacity).toNat (s.data.items capacity) .dequeue).2) ∧
      t.data.items capacity = (boundedFifo.call
          (realCapacity capacity).toNat (s.data.items capacity) .dequeue).1 ∧
      Inv capacity t ∧ t.producer = s.producer ∧ t.consumer = .idle := by
  by_cases hempty : s.data.tail = s.data.head
  · have hnil := (QueueSlots.items_eq_nil_iff hs.bounded).mpr hempty
    rw [hnil]
    refine ⟨{ s with consumer := .idle }, ?_, hnil, ⟨hs.bounded, hs.producer, trivial⟩, rfl, rfl⟩
    simp [call, step, machine, Machine.finish, dequeueStep, returns, hconsumer, hempty,
      boundedFifo.call]
  · rw [QueueSlots.items_storeTail hcap hs.bounded hempty]
    refine ⟨{ s with
      data := s.data.storeTail (nextIndex capacity s.data.tail), consumer := .idle }, ?_, rfl,
      ⟨hs.bounded.storeTail hcap, hs.producer.storeTail hcap hs.bounded hempty, trivial⟩, rfl, rfl⟩
    simp [call, step, machine, Machine.finish, dequeueStep, returns, hconsumer, hempty,
      boundedFifo.call]

theorem answers_eq (hcap : checkCapacity capacity = .ok ()) (hs : Inv capacity s)
    (hproducer : s.producer = .idle) (hconsumer : s.consumer = .idle)
    (calls : List (FifoCall UInt32)) :
    answers (call capacity) s calls =
      some (responses (boundedFifo.call (realCapacity capacity).toNat)
        (s.data.items capacity) calls) := by
  apply answers_eq_responses (R := fun s items => Inv capacity s ∧ s.producer = .idle ∧
    s.consumer = .idle ∧ s.data.items capacity = items) _ ⟨hs, hproducer, hconsumer, rfl⟩
  rintro s _ c - ⟨hs, hproducer, hconsumer, rfl⟩
  cases c with
  | enqueue item =>
      obtain ⟨t, hcall, hitems, ht, hidle, hidle'⟩ :=
        call_enqueue hcap hs hproducer hconsumer item
      exact ⟨t, hcall, ht, hidle, hidle', hitems⟩
  | dequeue =>
      obtain ⟨t, hcall, hitems, ht, hsame, hidle⟩ := call_dequeue hcap hs hconsumer
      exact ⟨t, hcall, ht, hsame.trans hproducer, hidle, hitems⟩

end SpscQueueRingBuffer

namespace SpscQueueSeqLock

variable {s : State}

theorem call_enqueue (hcap : checkCapacity capacity = .ok ()) (hs : Inv capacity s)
    (hproducer : s.producer = .idle) (hconsumer : s.consumer = .idle) (item : UInt32) :
    ∃ t, call capacity s (.enqueue item) = some (t, (boundedFifo.call
          (realCapacity capacity).toNat (s.data.items capacity) (.enqueue item)).2) ∧
      t.data.items capacity = (boundedFifo.call
          (realCapacity capacity).toNat (s.data.items capacity) (.enqueue item)).1 ∧
      Inv capacity t ∧ t.producer = .idle ∧ t.consumer = .idle := by
  have hle := QueueSlots.length_items_le hcap hs.bounded
  have hfull_iff := QueueSlots.nextIndex_eq_tail_iff hcap hs.bounded
  by_cases hfull : nextIndex capacity s.data.head = s.data.tail
  · have hlen := hfull_iff.mp hfull
    rw [boundedFifo.call_enqueue_refused (by omega)]
    refine ⟨{ s with producer := .idle }, ?_, rfl, hproducer ▸ hs, rfl, hconsumer⟩
    simp only [call, step, machine, Machine.finish, enqueueStep, returns, hproducer, hfull,
      ↓reduceIte, Option.bind_some, Option.map_some]
  · have hlen := mt hfull_iff.mpr hfull
    rw [boundedFifo.call_enqueue_accepted (by omega)]
    have hparity : (s.data.seq + 1 + 1).toNat % 2 = 0 := by
      have hidle := hs.parity
      rw [hproducer] at hidle
      exact seq_mod_two.mp (even_add_two (seq_mod_two.mpr hidle))
    refine ⟨⟨((s.data.fetchAddSeq.storeSlot s.data.head item).storeHead
        (nextIndex capacity s.data.head)).fetchAddSeq, .idle, .idle⟩, ?_,
      QueueSlots.items_storeSlot_storeHead hcap hs.bounded hfull item,
      ⟨(hs.bounded.storeSlot s.data.head item).storeHead hcap, trivial, trivial, hparity⟩,
      rfl, rfl⟩
    simp only [call, step, machine, Machine.finish, enqueueStep, returns, hproducer, hconsumer,
      hfull, ↓reduceIte, Option.bind_some, Option.map_some]

/-- A `Dequeue` made alone finds the same counter twice. With an even one it does not matter where
the producer stands. -/
theorem call_dequeue (hcap : checkCapacity capacity = .ok ()) (hs : Inv capacity s)
    (hsection : inSection s.producer = false) (hconsumer : s.consumer = .idle) :
    ∃ t, call capacity s .dequeue = some (t, (boundedFifo.call
          (realCapacity capacity).toNat (s.data.items capacity) .dequeue).2) ∧
      t.data.items capacity = (boundedFifo.call
          (realCapacity capacity).toNat (s.data.items capacity) .dequeue).1 ∧
      Inv capacity t ∧ t.producer = s.producer ∧ t.consumer = .idle := by
  have heven : s.data.seq % 2 = 0 := by
    rw [seq_mod_two, hs.parity, hsection]
    rfl
  by_cases hempty : s.data.tail = s.data.head
  · have hnil := (QueueSlots.items_eq_nil_iff hs.bounded).mpr hempty
    rw [hnil]
    refine ⟨{ s with consumer := .idle }, ?_, hnil,
      ⟨hs.bounded, hs.producer, trivial, hs.parity⟩, rfl, rfl⟩
    simp only [call, step, machine, Machine.finish, dequeueStep, returns, hconsumer, hempty,
      boundedFifo.call, ne_eq, ite_not, ↓reduceIte, Option.bind_some, Option.map_some]
  · rw [QueueSlots.items_storeTail hcap hs.bounded hempty]
    refine ⟨{ s with
      data := s.data.storeTail (nextIndex capacity s.data.tail), consumer := .idle }, ?_, rfl,
      ⟨hs.bounded.storeTail hcap, hs.producer.storeTail hcap hs.bounded hempty
        (settled_of_not_inSection hsection), trivial, hs.parity⟩, rfl, rfl⟩
    simp only [call, step, machine, Machine.finish, dequeueStep, returns, hconsumer, hempty, heven,
      boundedFifo.call, ne_eq, ite_not, ↓reduceIte, Option.bind_some, Option.map_some]

/-- With an odd counter every call gives up and changes nothing. -/
theorem call_dequeue_inSection (hs : Inv capacity s) (hsection : inSection s.producer = true)
    (hconsumer : s.consumer = .idle) :
    call capacity s .dequeue = some ({ s with consumer := .idle }, .dequeue none) := by
  have hodd : ¬ s.data.seq % 2 = 0 := by
    rw [seq_mod_two, hs.parity, hsection]
    decide
  by_cases hempty : s.data.tail = s.data.head <;>
    simp only [call, step, machine, Machine.finish, dequeueStep, returns, hconsumer, hempty, hodd,
      ne_eq, ite_not, ↓reduceIte, Option.bind_some, Option.map_some]

theorem answers_eq (hcap : checkCapacity capacity = .ok ()) (hs : Inv capacity s)
    (hproducer : s.producer = .idle) (hconsumer : s.consumer = .idle)
    (calls : List (FifoCall UInt32)) :
    answers (call capacity) s calls =
      some (responses (boundedFifo.call (realCapacity capacity).toNat)
        (s.data.items capacity) calls) := by
  apply answers_eq_responses (R := fun s items => Inv capacity s ∧ s.producer = .idle ∧
    s.consumer = .idle ∧ s.data.items capacity = items) _ ⟨hs, hproducer, hconsumer, rfl⟩
  rintro s _ c - ⟨hs, hproducer, hconsumer, rfl⟩
  cases c with
  | enqueue item =>
      obtain ⟨t, hcall, hitems, ht, hidle, hidle'⟩ :=
        call_enqueue hcap hs hproducer hconsumer item
      exact ⟨t, hcall, ht, hidle, hidle', hitems⟩
  | dequeue =>
      have hsection : inSection s.producer = false := by
        rw [hproducer]
        rfl
      obtain ⟨t, hcall, hitems, ht, hsame, hidle⟩ := call_dequeue hcap hs hsection hconsumer
      exact ⟨t, hcall, ht, hsame.trans hproducer, hidle, hitems⟩

end SpscQueueSeqLock

/-- **The two queues are interchangeable without overlap.** Whatever calls are made one after the
other, both give the answers of a first-in first-out queue that refuses an `Enqueue` exactly when it
holds `GetRealCapacity()` items and a `Dequeue` exactly when it is empty. The counter of the
sequence lock may start at any even value, in particular just before it wraps. -/
theorem queues_answer_alike (hcap : checkCapacity capacity = .ok ()) {seq : UInt64}
    (hseq : seq.toNat % 2 = 0) (calls : List (FifoCall UInt32)) :
    let history := responses (boundedFifo.call (realCapacity capacity).toNat) [] calls
    answers (SpscQueueRingBuffer.call capacity) SpscQueueRingBuffer.initial calls = some history ∧
      answers (SpscQueueSeqLock.call capacity) (SpscQueueSeqLock.initial seq) calls =
        some history ∧
      ∃ items, (boundedFifo UInt32 (realCapacity capacity).toNat).exec [] history =
        some items := by
  have hring := SpscQueueRingBuffer.answers_eq hcap (SpscQueueRingBuffer.inv_initial hcap) rfl rfl
    calls
  have hlock := SpscQueueSeqLock.answers_eq hcap (SpscQueueSeqLock.inv_initial hcap hseq) rfl rfl
    calls
  have hnil : (QueueSlots.zero).items capacity = [] := QueueSlots.items_zero
  refine ⟨?_, ?_, boundedFifo.exec_responses calls⟩
  · exact hring.trans (by rw [SpscQueueRingBuffer.initial, hnil])
  · exact hlock.trans (by rw [SpscQueueSeqLock.initial, hnil])

/-- Three items in and out of a queue for one, the counter wrapping at the first of them. -/
theorem queues_answer_alike_wrapping :
    let calls : List (FifoCall UInt32) := [.enqueue 5, .enqueue 6, .dequeue, .dequeue, .enqueue 7,
      .dequeue, .enqueue 8, .dequeue]
    answers (SpscQueueRingBuffer.call 2) SpscQueueRingBuffer.initial calls =
        answers (SpscQueueSeqLock.call 2) (SpscQueueSeqLock.initial 18446744073709551614) calls ∧
      answers (SpscQueueRingBuffer.call 2) SpscQueueRingBuffer.initial calls =
        some [.enqueue 5 true, .enqueue 6 false, .dequeue (some 5), .dequeue none,
          .enqueue 7 true, .dequeue (some 7), .enqueue 8 true, .dequeue (some 8)] :=
  have halike := queues_answer_alike (show checkCapacity 2 = .ok () by decide)
    (show (18446744073709551614 : UInt64).toNat % 2 = 0 by decide)
    [.enqueue 5, .enqueue 6, .dequeue, .dequeue, .enqueue 7, .dequeue, .enqueue 8, .dequeue]
  ⟨halike.1.trans halike.2.1.symm, halike.1⟩

end MatrixTransposer
