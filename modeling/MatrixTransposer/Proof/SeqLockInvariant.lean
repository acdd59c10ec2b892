import MatrixTransposer.SpscQueueSeqLock

/-!
# What each side of `SpscQueueSeqLock` knows

The indices behave as in the plain ring buffer. What the counter adds is a second fact about the
consumer: once it has read an even counter in a queue that was not empty, the oldest item belongs to
an `Enqueue` that has returned, so even while a later `Enqueue` has stored the head but not yet
closed its section, at least two items are held. Only the parity of the counter is needed for that;
the comparison of its two values is not.
-/

namespace MatrixTransposer.SpscQueueSeqLock

variable {capacity : UInt64} {s t : State} {a : Action}

inductive Move (capacity : UInt64) (s : State) : Action → State → Prop where
  | loadHead {item : UInt32} (hpc : s.producer = .idle) :
      Move capacity s (.enqueue item)
        { s with producer := .loadTail item s.data.head (nextIndex capacity s.data.head) }
  | full {item : UInt32} {head nextHead : UInt64} (hpc : s.producer = .loadTail item head nextHead)
      (hfull : nextHead = s.data.tail) :
      Move capacity s .producer { s with producer := .idle }
  | room {item : UInt32} {head nextHead : UInt64} (hpc : s.producer = .loadTail item head nextHead)
      (hroom : nextHead ≠ s.data.tail) :
      Move capacity s .producer { s with producer := .openSeq item head nextHead }
  | openSeq {item : UInt32} {head nextHead : UInt64}
      (hpc : s.producer = .openSeq item head nextHead) :
      Move capacity s .producer
        { s with data := s.data.fetchAddSeq, producer := .storeSlot item head nextHead }
  | storeSlot {item : UInt32} {head nextHead : UInt64}
      (hpc : s.producer = .storeSlot item head nextHead) :
      Move capacity s .producer
        { s with data := s.data.storeSlot head item, producer := .storeHead item nextHead }
  | storeHead {item : UInt32} {nextHead : UInt64} (hpc : s.producer = .storeHead item nextHead) :
      Move capacity s .producer
        { s with data := s.data.storeHead nextHead, producer := .closeSeq item }
  | closeSeq {item : UInt32} (hpc : s.producer = .closeSeq item) :
      Move capacity s .producer { s with data := s.data.fetchAddSeq, producer := .idle }
  | dequeue (hpc : s.consumer = .idle) :
      Move capacity s .dequeue { s with consumer := .loadTail s.data.head }
  | empty {head : UInt64} (hpc : s.consumer = .loadTail head) (hempty : s.data.tail = head) :
      Move capacity s .consumer { s with consumer := .idle }
  | occupied {head : UInt64} (hpc : s.consumer = .loadTail head) (hne : s.data.tail ≠ head) :
      Move capacity s .consumer { s with consumer := .loadSeqStart s.data.tail }
  | odd {tail : UInt64} (hpc : s.consumer = .loadSeqStart tail) (hodd : s.data.seq % 2 ≠ 0) :
      Move capacity s .consumer { s with consumer := .idle }
  | even {tail : UInt64} (hpc : s.consumer = .loadSeqStart tail) (heven : s.data.seq % 2 = 0) :
      Move capacity s .consumer { s with consumer := .loadSlot tail s.data.seq }
  | loadSlot {tail seqStart : UInt64} (hpc : s.consumer = .loadSlot tail seqStart) :
      Move capacity s .consumer
        { s with consumer :=
            .loadSeqEnd seqStart (s.data.buffer tail.toNat) (nextIndex capacity tail) }
  | unmoved {seqStart nextTail : UInt64} {item : UInt32}
      (hpc : s.consumer = .loadSeqEnd seqStart item nextTail) (hseq : seqStart = s.data.seq) :
      Move capacity s .consumer { s with consumer := .storeTail item nextTail }
  | moved {seqStart nextTail : UInt64} {item : UInt32}
      (hpc : s.consumer = .loadSeqEnd seqStart item nextTail) (hseq : seqStart ≠ s.data.seq) :
      Move capacity s .consumer { s with consumer := .idle }
  | storeTail {item : UInt32} {nextTail : UInt64} (hpc : s.consumer = .storeTail item nextTail) :
      Move capacity s .consumer { s with data := s.data.storeTail nextTail, consumer := .idle }

theorem move_of_step (h : step capacity s a = some t) : Move capacity s a t := by
  cases a with
  | enqueue item =>
      obtain ⟨hpc, rfl⟩ := by simpa [step] using h
      exact .loadHead hpc
  | dequeue =>
      obtain ⟨hpc, rfl⟩ := by simpa [step] using h
      exact .dequeue hpc
  | producer =>
      obtain ⟨⟨data, pc⟩, hstep, rfl⟩ := Option.map_eq_some_iff.mp h
      cases hpc : s.producer with
      | idle => simp [enqueueStep, hpc] at hstep
      | loadTail item head nextHead =>
          by_cases hfull : nextHead = s.data.tail
          · obtain ⟨rfl, rfl⟩ := by simpa [enqueueStep, hpc, hfull] using hstep
            exact .full hpc hfull
          · obtain ⟨rfl, rfl⟩ := by simpa [enqueueStep, hpc, hfull] using hstep
            exact .room hpc hfull
      | openSeq item head nextHead =>
          obtain ⟨rfl, rfl⟩ := by simpa [enqueueStep, hpc] using hstep
          exact .openSeq hpc
      | storeSlot item head nextHead =>
          obtain ⟨rfl, rfl⟩ := by simpa [enqueueStep, hpc] using hstep
          exact .storeSlot hpc
      | storeHead item nextHead =>
          obtain ⟨rfl, rfl⟩ := by simpa [enqueueStep, hpc] using hstep
          exact .storeHead hpc
      | closeSeq item =>
          obtain ⟨rfl, rfl⟩ := by simpa [enqueueStep, hpc] using hstep
          exact .closeSeq hpc
  | consumer =>
      obtain ⟨⟨data, pc⟩, hstep, rfl⟩ := Option.map_eq_some_iff.mp h
      cases hpc : s.consumer with
      | idle => simp [dequeueStep, hpc] at hstep
      | loadTail head =>
          by_cases hempty : s.data.tail = head
          · obtain ⟨rfl, rfl⟩ := by simpa [dequeueStep, hpc, hempty] using hstep
            exact .empty hpc hempty
          · obtain ⟨rfl, rfl⟩ := by simpa [dequeueStep, hpc, hempty] using hstep
            exact .occupied hpc hempty
      | loadSeqStart tail =>
          by_cases heven : s.data.seq % 2 = 0
          · obtain ⟨rfl, rfl⟩ := by simpa [dequeueStep, hpc, heven] using hstep
            exact .even hpc heven
          · obtain ⟨rfl, rfl⟩ := by simpa [dequeueStep, hpc, heven] using hstep
            exact .odd hpc heven
      | loadSlot tail seqStart =>
          obtain ⟨rfl, rfl⟩ := by simpa [dequeueStep, hpc] using hstep
          exact .loadSlot hpc
      | loadSeqEnd seqStart item nextTail =>
          by_cases hseq : seqStart = s.data.seq
          · obtain ⟨rfl, rfl⟩ := by simpa [dequeueStep, hpc, hseq] using hstep
            exact .unmoved hpc hseq
          · obtain ⟨rfl, rfl⟩ := by simpa [dequeueStep, hpc, hseq] using hstep
            exact .moved hpc hseq
      | storeTail item nextTail =>
          obtain ⟨rfl, rfl⟩ := by simpa [dequeueStep, hpc] using hstep
          exact .storeTail hpc

/-! ### The invariant -/

def ProducerFacts (capacity : UInt64) (data : QueueData) : EnqueuePc → Prop
  | .idle => True
  | .loadTail _ head nextHead => head = data.head ∧ nextHead = nextIndex capacity data.head
  | .openSeq _ head nextHead | .storeSlot _ head nextHead =>
      head = data.head ∧ nextHead = nextIndex capacity data.head ∧ nextHead ≠ data.tail
  | .storeHead item nextHead =>
      nextHead = nextIndex capacity data.head ∧ nextHead ≠ data.tail ∧
        data.buffer data.head.toNat = item
  | .closeSeq item => ∃ older, data.items capacity = older ++ [item]

/-- `settled` says that the oldest item is not the one whose `Enqueue` is still open. -/
def ConsumerFacts (capacity : UInt64) (data : QueueData) (settled : Prop) : DequeuePc → Prop
  | .idle => True
  | .loadTail head => head ≠ data.tail → data.tail ≠ data.head
  | .loadSeqStart tail => tail = data.tail ∧ data.tail ≠ data.head
  | .loadSlot tail _ => tail = data.tail ∧ data.tail ≠ data.head ∧ settled
  | .loadSeqEnd _ item nextTail | .storeTail item nextTail =>
      nextTail = nextIndex capacity data.tail ∧ data.tail ≠ data.head ∧
        data.buffer data.tail.toNat = item ∧ settled

/-- While the newest item's `Enqueue` is open, an older one is held as well. -/
def Settled (capacity : UInt64) (data : QueueData) (pc : EnqueuePc) : Prop :=
  ∀ item, pc = .closeSeq item → 2 ≤ (data.items capacity).length

structure Inv (capacity : UInt64) (s : State) : Prop where
  bounded : s.data.Bounded capacity
  producer : ProducerFacts capacity s.data s.producer
  consumer : ConsumerFacts capacity s.data (Settled capacity s.data s.producer) s.consumer
  parity : s.data.seq.toNat % 2 = if inSection s.producer then 1 else 0

theorem seq_mod_two {seq : UInt64} : seq % 2 = 0 ↔ seq.toNat % 2 = 0 := by
  rw [← UInt64.toNat_inj, UInt64.toNat_mod]
  rfl

/-- With an even counter no section is open. -/
theorem not_inSection_of_even {pc : EnqueuePc} {seq : UInt64}
    (hparity : seq.toNat % 2 = if inSection pc then 1 else 0) (heven : seq % 2 = 0) :
    inSection pc = false := by
  rw [seq_mod_two.mp heven] at hparity
  by_contra hin
  rw [Bool.not_eq_false] at hin
  simp [hin] at hparity

theorem toNat_fetchAddSeq_mod_two (q : QueueData) :
    q.fetchAddSeq.seq.toNat % 2 = (q.seq.toNat + 1) % 2 := by
  change (q.seq + 1).toNat % 2 = _
  rw [UInt64.toNat_add, UInt64.toNat_one, Nat.mod_mod_of_dvd _ (by decide)]

/-- The two increments of an `Enqueue`. -/
theorem even_add_two {seq : UInt64} (h : seq % 2 = 0) : (seq + 1 + 1) % 2 = 0 := by
  rw [seq_mod_two] at h ⊢
  rw [UInt64.toNat_add, UInt64.toNat_add, UInt64.toNat_one]
  omega

theorem inv_initial (hcap : checkCapacity capacity = .ok ()) {seq : UInt64}
    (hseq : seq.toNat % 2 = 0) : Inv capacity (initial seq) :=
  ⟨QueueSlots.bounded_zero hcap, trivial, trivial, hseq⟩

theorem ConsumerFacts.mono {data : QueueData} {p q : Prop} (hpq : p → q) {pc : DequeuePc}
    (h : ConsumerFacts capacity data p pc) : ConsumerFacts capacity data q pc := by
  cases pc with
  | idle | loadTail | loadSeqStart => exact h
  | loadSlot => exact ⟨h.1, h.2.1, hpq h.2.2⟩
  | loadSeqEnd | storeTail => exact ⟨h.1, h.2.1, h.2.2.1, hpq h.2.2.2⟩

section Interference

variable {data : QueueData}

theorem settled_of_ne {pc : EnqueuePc} (h : ∀ item, pc ≠ .closeSeq item) :
    Settled capacity data pc :=
  fun item hpc => absurd hpc (h item)

theorem settled_of_not_inSection {pc : EnqueuePc} (h : inSection pc = false) :
    Settled capacity data pc := by
  rintro item rfl
  cases h

/-- A slot that was free stays free, and a published item stays held, while the consumer takes an
older item. -/
theorem ProducerFacts.storeTail (hcap : checkCapacity capacity = .ok ())
    (hq : data.Bounded capacity) (hne : data.tail ≠ data.head) {pc : EnqueuePc}
    (hsettled : Settled capacity data pc) (h : ProducerFacts capacity data pc) :
    ProducerFacts capacity (data.storeTail (nextIndex capacity data.tail)) pc := by
  have hfree := QueueSlots.nextIndex_head_ne hcap hq hne
  cases pc with
  | idle => trivial
  | loadTail => exact h
  | openSeq | storeSlot =>
      obtain ⟨hhead, hnext, _⟩ := h
      exact ⟨hhead, hnext, hnext ▸ hfree⟩
  | storeHead =>
      obtain ⟨hnext, _, hitem⟩ := h
      exact ⟨hnext, hnext ▸ hfree, hitem⟩
  | closeSeq item =>
      obtain ⟨older, hitems⟩ := h
      have htwo := hsettled item rfl
      have hpop := QueueSlots.items_storeTail hcap hq hne
      rw [hitems] at htwo hpop
      cases older with
      | nil => simp at htwo
      | cons first rest =>
          exact ⟨rest, (List.cons.inj hpop).2.symm⟩

theorem ConsumerFacts.storeSlot {settled : Prop} {pc : DequeuePc}
    (h : ConsumerFacts capacity data settled pc) (item : UInt32) :
    ConsumerFacts capacity (data.storeSlot data.head item) settled pc := by
  cases pc with
  | idle | loadTail | loadSeqStart | loadSlot => exact h
  | loadSeqEnd | storeTail =>
      obtain ⟨hnext, hne, hitem, hsettled⟩ := h
      exact ⟨hnext, hne, (QueueSlots.buffer_storeSlot_tail hne item).trans hitem, hsettled⟩

theorem ConsumerFacts.storeHead (hroom : nextIndex capacity data.head ≠ data.tail) {p q : Prop}
    (hpq : data.tail ≠ data.head → q) {pc : DequeuePc} (h : ConsumerFacts capacity data p pc) :
    ConsumerFacts capacity (data.storeHead (nextIndex capacity data.head)) q pc := by
  cases pc with
  | idle => trivial
  | loadTail => exact fun _ => hroom.symm
  | loadSeqStart => exact ⟨h.1, hroom.symm⟩
  | loadSlot => exact ⟨h.1, hroom.symm, hpq h.2.1⟩
  | loadSeqEnd | storeTail => exact ⟨h.1, hroom.symm, h.2.2.1, hpq h.2.1⟩

end Interference

theorem inv_step (hcap : checkCapacity capacity = .ok ()) (hs : Inv capacity s)
    (h : step capacity s a = some t) : Inv capacity t := by
  obtain ⟨hbounded, hproducer, hconsumer, hparity⟩ := hs
  cases move_of_step h with
  | loadHead hpc =>
      rw [hpc] at hparity
      exact ⟨hbounded, ⟨rfl, rfl⟩, hconsumer.mono fun _ => settled_of_not_inSection rfl, hparity⟩
  | full hpc hfull =>
      rw [hpc] at hparity
      exact ⟨hbounded, trivial, hconsumer.mono fun _ => settled_of_not_inSection rfl, hparity⟩
  | room hpc hroom =>
      rw [hpc] at hproducer hparity
      exact ⟨hbounded, ⟨hproducer.1, hproducer.2, hroom⟩,
        hconsumer.mono fun _ => settled_of_not_inSection rfl, hparity⟩
  | openSeq hpc =>
      rw [hpc] at hproducer hparity
      refine ⟨hbounded, hproducer, hconsumer.mono fun _ => settled_of_ne (by simp), ?_⟩
      rw [toNat_fetchAddSeq_mod_two, Nat.add_mod, hparity]
      simp [inSection]
  | storeSlot hpc =>
      rw [hpc] at hproducer hparity
      obtain ⟨rfl, hnext, hroom⟩ := hproducer
      exact ⟨hbounded.storeSlot _ _, ⟨hnext, hroom, Function.update_self _ _ _⟩,
        (hconsumer.storeSlot _).mono fun _ => settled_of_ne (by simp), hparity⟩
  | storeHead hpc =>
      rw [hpc] at hproducer hparity
      obtain ⟨rfl, hroom, rfl⟩ := hproducer
      have hitems := QueueSlots.items_storeHead hcap hbounded hroom
      refine ⟨hbounded.storeHead hcap, ⟨_, hitems⟩, hconsumer.storeHead hroom ?_, hparity⟩
      -- an item was held before, and the new one comes on top of it
      intro hne _ _
      have hold : s.data.items capacity ≠ [] :=
        fun hnil => hne ((QueueSlots.items_eq_nil_iff hbounded).mp hnil)
      change 2 ≤ ((s.data.toQueueSlots.storeHead _).items capacity).length
      rw [hitems, List.length_append, List.length_singleton]
      have := List.length_pos_iff.mpr hold
      omega
  | closeSeq hpc =>
      rw [hpc] at hparity
      refine ⟨hbounded, trivial, hconsumer.mono fun _ => settled_of_not_inSection rfl, ?_⟩
      rw [toNat_fetchAddSeq_mod_two, Nat.add_mod, hparity]
      simp [inSection]
  | dequeue hpc => exact ⟨hbounded, hproducer, fun hne heq => hne heq.symm, hparity⟩
  | empty hpc hempty => exact ⟨hbounded, hproducer, trivial, hparity⟩
  | occupied hpc hne =>
      rw [hpc] at hconsumer
      exact ⟨hbounded, hproducer, ⟨rfl, hconsumer (Ne.symm hne)⟩, hparity⟩
  | odd hpc hodd => exact ⟨hbounded, hproducer, trivial, hparity⟩
  | even hpc heven =>
      rw [hpc] at hconsumer
      have hout := not_inSection_of_even hparity heven
      exact ⟨hbounded, hproducer, ⟨hconsumer.1, hconsumer.2, settled_of_not_inSection hout⟩,
        hparity⟩
  | loadSlot hpc =>
      rw [hpc] at hconsumer
      obtain ⟨rfl, hne, hsettled⟩ := hconsumer
      exact ⟨hbounded, hproducer, ⟨rfl, hne, rfl, hsettled⟩, hparity⟩
  | unmoved hpc hseq =>
      rw [hpc] at hconsumer
      exact ⟨hbounded, hproducer, hconsumer, hparity⟩
  | moved hpc hseq => exact ⟨hbounded, hproducer, trivial, hparity⟩
  | storeTail hpc =>
      rw [hpc] at hconsumer
      obtain ⟨rfl, hne, _, hsettled⟩ := hconsumer
      exact ⟨hbounded.storeTail hcap, hproducer.storeTail hcap hbounded hne hsettled, trivial,
        hparity⟩

theorem inv_of_exec (hcap : checkCapacity capacity = .ok ()) {seq : UInt64}
    (hseq : seq.toNat % 2 = 0) {acts : List Action}
    (hrun : (machine capacity).exec (initial seq) acts = some s) : Inv capacity s :=
  Lib.Machine.exec_preserves (I := Inv capacity) (fun _ _ _ hinv hstep => inv_step hcap hinv hstep)
    (inv_initial hcap hseq) hrun

end MatrixTransposer.SpscQueueSeqLock
