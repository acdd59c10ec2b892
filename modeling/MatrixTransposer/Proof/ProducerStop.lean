import MatrixTransposer.Proof.SpscQueueCalls

/-!
# A producer that stops

A client can be killed between any two accesses of its `Enqueue`. In the ring buffer nothing of a
half-finished `Enqueue` is visible before its last access, so the consumer runs on undisturbed. In
the sequence lock it depends on where the producer stands: before the first increment of the counter
and after the second the consumer gets every item, between the two it gets none any more.
-/

namespace MatrixTransposer

open Lib

variable {capacity : UInt64}

/-- The items of a history whose `Enqueue` has returned and that no `Dequeue` has delivered. -/
def undelivered (history : List (FifoOp UInt32)) : List UInt32 :=
  (FifoOp.enqueued history).drop (FifoOp.dequeued history).length

/-- The answers to `n` calls of `Dequeue` that deliver these items and are refused afterwards. -/
def deliveries (n : Nat) (items : List UInt32) : List (FifoOp UInt32) :=
  ((items.take n).map fun item => .dequeue (some item)) ++
    List.replicate (n - items.length) (.dequeue none)

theorem undelivered_eq {history : List (FifoOp UInt32)} {items : List UInt32}
    (h : FifoOp.enqueued history = FifoOp.dequeued history ++ items) :
    undelivered history = items := by
  rw [undelivered, h, List.drop_left]

namespace SpscQueueRingBuffer

variable {s : State}

/-- The accesses left to a `Dequeue`, at most. -/
def accessesLeft : DequeuePc → Nat
  | .idle => 0
  | .loadHead _ => 3
  | .loadSlot _ => 2
  | .storeTail .. => 1

/-- A call that is under way when the producer stops returns. -/
theorem running_call_returns (s : State) :
    ∃ k t, (machine capacity).exec s (List.replicate k .consumer) = some t ∧
      t.producer = s.producer ∧ t.consumer = .idle := by
  have hstep : ∀ u : State, u.producer = s.producer → accessesLeft u.consumer ≠ 0 →
      ∃ t, (machine capacity).step u .consumer = some t ∧ t.producer = s.producer ∧
        accessesLeft t.consumer < accessesLeft u.consumer := by
    intro u hu hleft
    cases hpc : u.consumer with
    | idle => exact absurd (congrArg accessesLeft hpc) hleft
    | loadHead tail =>
        by_cases hempty : tail = u.data.head <;>
          simp [machine, step, dequeueStep, hpc, hempty, hu, accessesLeft]
    | loadSlot | storeTail => simp [machine, step, dequeueStep, hpc, hu, accessesLeft]
  obtain ⟨k, t, hrun, hsame, hzero⟩ :=
    Machine.exec_replicate_to_end (fun t : State => accessesLeft t.consumer) hstep rfl
  refine ⟨k, t, hrun, hsame, ?_⟩
  cases hpc : t.consumer with
  | idle => rfl
  | loadHead | loadSlot | storeTail => simp [hpc, accessesLeft] at hzero

theorem undelivered_trace (hcap : checkCapacity capacity = .ok ()) {acts : List Action}
    (hrun : (machine capacity).exec initial acts = some s) :
    undelivered ((machine capacity).trace returns initial acts) = s.data.items capacity :=
  undelivered_eq (boundedFifo.enqueued_eq_dequeued_append (exec_simulates hcap hrun))

theorem answers_dequeue (hcap : checkCapacity capacity = .ok ()) (hs : Inv capacity s)
    (hconsumer : s.consumer = .idle) (n : Nat) :
    answers (call capacity) s (List.replicate n .dequeue) =
      some (deliveries n (s.data.items capacity)) := by
  rw [deliveries, ← boundedFifo.responses_dequeue (realCapacity capacity).toNat]
  apply answers_eq_responses (R := fun s items => Inv capacity s ∧ s.consumer = .idle ∧
    s.data.items capacity = items) _ ⟨hs, hconsumer, rfl⟩
  rintro s _ c hc ⟨hs, hconsumer, rfl⟩
  obtain rfl := List.eq_of_mem_replicate hc
  obtain ⟨t, hcall, hitems, ht, _, hidle⟩ := call_dequeue hcap hs hconsumer
  exact ⟨t, hcall, ht, hidle, hitems⟩

end SpscQueueRingBuffer

namespace SpscQueueSeqLock

variable {s : State}

def accessesLeft : DequeuePc → Nat
  | .idle => 0
  | .loadTail _ => 5
  | .loadSeqStart _ => 4
  | .loadSlot .. => 3
  | .loadSeqEnd .. => 2
  | .storeTail .. => 1

theorem running_call_returns (s : State) :
    ∃ k t, (machine capacity).exec s (List.replicate k .consumer) = some t ∧
      t.producer = s.producer ∧ t.consumer = .idle := by
  have hstep : ∀ u : State, u.producer = s.producer → accessesLeft u.consumer ≠ 0 →
      ∃ t, (machine capacity).step u .consumer = some t ∧ t.producer = s.producer ∧
        accessesLeft t.consumer < accessesLeft u.consumer := by
    intro u hu hleft
    cases hpc : u.consumer with
    | idle => exact absurd (congrArg accessesLeft hpc) hleft
    | loadTail head =>
        by_cases hempty : u.data.tail = head <;>
          simp [machine, step, dequeueStep, hpc, hempty, hu, accessesLeft]
    | loadSeqStart tail =>
        by_cases heven : u.data.seq % 2 = 0 <;>
          simp [machine, step, dequeueStep, hpc, heven, hu, accessesLeft]
    | loadSeqEnd seqStart item nextTail =>
        by_cases hseq : seqStart = u.data.seq <;>
          simp [machine, step, dequeueStep, hpc, hseq, hu, accessesLeft]
    | loadSlot | storeTail => simp [machine, step, dequeueStep, hpc, hu, accessesLeft]
  obtain ⟨k, t, hrun, hsame, hzero⟩ :=
    Machine.exec_replicate_to_end (fun t : State => accessesLeft t.consumer) hstep rfl
  refine ⟨k, t, hrun, hsame, ?_⟩
  cases hpc : t.consumer with
  | idle => rfl
  | loadTail | loadSeqStart | loadSlot | loadSeqEnd | storeTail =>
      simp [hpc, accessesLeft] at hzero

theorem undelivered_trace (hcap : checkCapacity capacity = .ok ()) {acts : List Action}
    (hrun : (machine capacity).exec (initial 0) acts = some s)
    (hsection : inSection s.producer = false) :
    undelivered ((machine capacity).trace returns (initial 0) acts) = s.data.items capacity := by
  have hpending : pending s.producer = [] := by
    cases hpc : s.producer with
    | closeSeq item => simp [hpc, inSection] at hsection
    | idle | loadTail | openSeq | storeSlot | storeHead => rfl
  have hmove := accounted_of_exec hcap rfl hrun
  rw [Accounted, hpending, List.append_nil] at hmove
  exact undelivered_eq hmove

theorem answers_dequeue (hcap : checkCapacity capacity = .ok ()) (hs : Inv capacity s)
    (hsection : inSection s.producer = false) (hconsumer : s.consumer = .idle) (n : Nat) :
    answers (call capacity) s (List.replicate n .dequeue) =
      some (deliveries n (s.data.items capacity)) := by
  rw [deliveries, ← boundedFifo.responses_dequeue (realCapacity capacity).toNat]
  apply answers_eq_responses (R := fun s items => Inv capacity s ∧
    inSection s.producer = false ∧ s.consumer = .idle ∧ s.data.items capacity = items) _
    ⟨hs, hsection, hconsumer, rfl⟩
  rintro s _ c hc ⟨hs, hsection, hconsumer, rfl⟩
  obtain rfl := List.eq_of_mem_replicate hc
  obtain ⟨t, hcall, hitems, ht, hsame, hidle⟩ := call_dequeue hcap hs hsection hconsumer
  exact ⟨t, hcall, ht, hsame ▸ hsection, hidle, hitems⟩

theorem answers_dequeue_inSection (hs : Inv capacity s) (hsection : inSection s.producer = true)
    (hconsumer : s.consumer = .idle) (n : Nat) :
    answers (call capacity) s (List.replicate n .dequeue) =
      some (List.replicate n (.dequeue none)) := by
  have hsame : { s with consumer := .idle } = s := by rw [← hconsumer]
  induction n with
  | zero => rfl
  | succ n ih =>
      have hcall := call_dequeue_inSection hs hsection hconsumer
      rw [hsame] at hcall
      simp [List.replicate_succ, answers, hcall, ih]

end SpscQueueSeqLock

/-- **What a stopped producer leaves behind.** Wherever the two sides stand when the producer stops,
a `Dequeue` that is under way returns, and so does every further one. On the ring buffer the further
calls deliver, in order, every item whose `Enqueue` has returned and which has not been dequeued. On
the sequence lock they do the same unless the producer has stopped between its two increments of the
counter, and give up for ever if it has. -/
theorem dequeues_after_stop (hcap : checkCapacity capacity = .ok ()) (n : Nat) :
    (∀ acts s, (SpscQueueRingBuffer.machine capacity).exec SpscQueueRingBuffer.initial acts =
        some s →
      (∃ k t, (SpscQueueRingBuffer.machine capacity).exec s (List.replicate k .consumer) = some t ∧
        t.producer = s.producer ∧ t.consumer = .idle) ∧
      (s.consumer = .idle →
        answers (SpscQueueRingBuffer.call capacity) s (List.replicate n .dequeue) =
          some (deliveries n (undelivered ((SpscQueueRingBuffer.machine capacity).trace
            SpscQueueRingBuffer.returns SpscQueueRingBuffer.initial acts))))) ∧
    ∀ acts s, (SpscQueueSeqLock.machine capacity).exec (SpscQueueSeqLock.initial 0) acts =
        some s →
      (∃ k t, (SpscQueueSeqLock.machine capacity).exec s (List.replicate k .consumer) = some t ∧
        t.producer = s.producer ∧ t.consumer = .idle) ∧
      (s.consumer = .idle →
        (SpscQueueSeqLock.inSection s.producer = false →
          answers (SpscQueueSeqLock.call capacity) s (List.replicate n .dequeue) =
            some (deliveries n (undelivered ((SpscQueueSeqLock.machine capacity).trace
              SpscQueueSeqLock.returns (SpscQueueSeqLock.initial 0) acts)))) ∧
        (SpscQueueSeqLock.inSection s.producer = true →
          answers (SpscQueueSeqLock.call capacity) s (List.replicate n .dequeue) =
            some (List.replicate n (.dequeue none)))) := by
  constructor
  · intro acts s hrun
    refine ⟨SpscQueueRingBuffer.running_call_returns s, fun hconsumer => ?_⟩
    have hs := SpscQueueRingBuffer.inv_of_reachable hcap ⟨_, acts, rfl, hrun⟩
    rw [SpscQueueRingBuffer.undelivered_trace hcap hrun]
    exact SpscQueueRingBuffer.answers_dequeue hcap hs hconsumer n
  · intro acts s hrun
    refine ⟨SpscQueueSeqLock.running_call_returns s, fun hconsumer => ?_⟩
    have hs := SpscQueueSeqLock.inv_of_exec hcap rfl hrun
    constructor
    · intro hsection
      rw [SpscQueueSeqLock.undelivered_trace hcap hrun hsection]
      exact SpscQueueSeqLock.answers_dequeue hcap hs hsection hconsumer n
    · exact fun hsection => SpscQueueSeqLock.answers_dequeue_inSection hs hsection hconsumer n

theorem dequeues_after_stop_two_items :
    let acts := [.enqueue 7] ++ List.replicate 3 .producer ++ [.enqueue 8, .producer, .producer]
    ∃ s, (SpscQueueRingBuffer.machine 4).exec SpscQueueRingBuffer.initial acts = some s ∧
      answers (SpscQueueRingBuffer.call 4) s (List.replicate 2 .dequeue) =
        some [.dequeue (some 7), .dequeue none] :=
  let acts := [.enqueue 7] ++ List.replicate 3 .producer ++ [.enqueue 8, .producer, .producer]
  have hcap : checkCapacity 4 = .ok () := by decide
  ⟨_, rfl, ((dequeues_after_stop hcap 2).1 acts _ rfl).2 rfl⟩

/-- A producer killed right after its first increment: the item enqueued before is never
delivered. -/
theorem seqLock_stopped_withholds :
    ¬ ∀ acts s, (SpscQueueSeqLock.machine 4).exec (SpscQueueSeqLock.initial 0) acts = some s →
      s.consumer = .idle →
      answers (SpscQueueSeqLock.call 4) s (List.replicate 1 .dequeue) =
        some (deliveries 1 (undelivered ((SpscQueueSeqLock.machine 4).trace
          SpscQueueSeqLock.returns (SpscQueueSeqLock.initial 0) acts))) := by
  intro hall
  have hstopped := hall
    ([.enqueue 7] ++ List.replicate 5 .producer ++ [.enqueue 8, .producer, .producer]) _ rfl rfl
  exact absurd hstopped (by decide)

end MatrixTransposer
