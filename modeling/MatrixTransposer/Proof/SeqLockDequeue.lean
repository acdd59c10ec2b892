import MatrixTransposer.Proof.SeqLockFifo

/-!
# When `Dequeue` has to succeed

`Dequeue` may give up although the queue is not empty, but only because an `Enqueue` was at work. A
call that starts with an even counter and sees no increment of it finds the whole of `QueueData`
unchanged until its own store, since every store of the producer lies between two increments. So
its five further accesses are determined by the state it started in, and they deliver.
-/

namespace MatrixTransposer.SpscQueueSeqLock

open Lib

variable {capacity : UInt64} {s t : State} {a : Action}

/-- `rest` follows on a `Dequeue` called in `s`: no other call of it starts, and no access changes
the counter. -/
def Undisturbed (capacity : UInt64) (s : State) (rest : List Action) : Prop :=
  .dequeue ∉ rest ∧
    ∀ before u, before <+: rest →
      (machine capacity).exec s (.dequeue :: before) = some u → u.data.seq = s.data.seq

/-- Where an undisturbed call stands after `k` further accesses, `q` being the data it runs over. -/
def undisturbedPc (capacity : UInt64) (q : QueueData) : Nat → DequeuePc
  | 0 => .loadTail q.head
  | 1 => .loadSeqStart q.tail
  | 2 => .loadSlot q.tail q.seq
  | 3 => .loadSeqEnd q.seq (q.buffer q.tail.toNat) (nextIndex capacity q.tail)
  | _ => .storeTail (q.buffer q.tail.toNat) (nextIndex capacity q.tail)

theorem seq_fetchAddSeq_ne (q : QueueData) : q.fetchAddSeq.seq ≠ q.seq := by
  intro heq
  have hparity := toNat_fetchAddSeq_mod_two q
  rw [heq] at hparity
  omega

theorem eq_consumer_of_dequeue_mem {answer : Option UInt32} (h : .dequeue answer ∈ returns s a) :
    a = .consumer := by
  cases a with
  | producer => cases hpc : s.producer <;> simp [returns, hpc] at h
  | consumer => rfl
  | _ => simp [returns] at h

theorem enqueued_returns_of_ne (ha : a ≠ .producer) : FifoOp.enqueued (returns s a) = [] := by
  cases a with
  | enqueue | dequeue => rfl
  | producer => exact absurd rfl ha
  | consumer => cases hpc : s.consumer <;> simp [returns, hpc] <;> split <;> simp

theorem dequeued_returns_of_ne (ha : a ≠ .consumer) : FifoOp.dequeued (returns s a) = [] := by
  cases a with
  | producer =>
      cases hpc : s.producer with
      | loadTail item head nextHead =>
          by_cases hfull : nextHead = s.data.tail <;> simp [returns, hpc, hfull]
      | _ => simp [returns, hpc]
  | consumer => exact absurd rfl ha
  | _ => rfl

/-- Outside its section the producer leaves the data alone. -/
theorem data_eq_of_seq_eq (hs : Inv capacity s) (heven : s.data.seq % 2 = 0)
    (h : step capacity s a = some t) (hseq : t.data.seq = s.data.seq) (ha : a ≠ .consumer) :
    t.data = s.data := by
  have hout := not_inSection_of_even hs.parity heven
  cases move_of_step h with
  | loadHead | full | room | dequeue => rfl
  | openSeq | closeSeq => exact absurd hseq (seq_fetchAddSeq_ne _)
  | storeSlot hpc | storeHead hpc =>
      rw [hpc] at hout
      cases hout
  | empty | occupied | odd | even | loadSlot | unmoved | moved | storeTail => exact absurd rfl ha

theorem consumer_eq_of_ne (h : step capacity s a = some t) (ha : a ≠ .consumer)
    (hdeq : a ≠ .dequeue) : t.consumer = s.consumer := by
  cases move_of_step h with
  | loadHead | full | room | openSeq | storeSlot | storeHead | closeSeq => rfl
  | dequeue => exact absurd rfl hdeq
  | empty | occupied | odd | even | loadSlot | unmoved | moved | storeTail => exact absurd rfl ha

theorem undisturbed_advance {k : Nat} (hk : k < 4) (heven : s.data.seq % 2 = 0)
    (hne : s.data.tail ≠ s.data.head) (hpc : s.consumer = undisturbedPc capacity s.data k)
    (h : step capacity s .consumer = some t) :
    t.data = s.data ∧ t.consumer = undisturbedPc capacity s.data (k + 1) ∧
      returns s .consumer = [] := by
  have hcases : k = 0 ∨ k = 1 ∨ k = 2 ∨ k = 3 := by omega
  rcases hcases with rfl | rfl | rfl | rfl <;>
    simp only [step, hpc, undisturbedPc, dequeueStep, returns, heven, if_neg hne, if_true,
      ne_eq, not_true_eq_false, if_false, Option.map_some, Option.some.injEq] at h ⊢ <;>
    (subst h; simp)

/-- Its last access delivers the oldest item. -/
theorem undisturbed_return (hpc : s.consumer = undisturbedPc capacity s.data 4)
    (h : step capacity s .consumer = some t) :
    t.consumer = .idle ∧
      returns s .consumer = [.dequeue (some (s.data.buffer s.data.tail.toNat))] := by
  simp only [step, hpc, undisturbedPc, dequeueStep, returns, Option.map_some,
    Option.some.injEq] at h ⊢
  subst h
  simp

theorem idle_run {rest : List Action} (hpc : s.consumer = .idle) (hrest : .dequeue ∉ rest)
    (hrun : (machine capacity).exec s rest = some t) :
    rest.count .consumer = 0 ∧ FifoOp.dequeue none ∉ (machine capacity).trace returns s rest ∧
      FifoOp.dequeued ((machine capacity).trace returns s rest) = [] := by
  induction rest generalizing s with
  | nil => simp
  | cons a rest ih =>
      obtain ⟨r, hstep, hrun'⟩ := Machine.exec_cons_eq_some.mp hrun
      have hdeq : a ≠ .dequeue := fun heq => hrest (heq ▸ List.mem_cons_self)
      have hcons : a ≠ .consumer := by
        rintro rfl
        simp [machine, step, hpc, dequeueStep] at hstep
      have hpc' : r.consumer = .idle := (consumer_eq_of_ne hstep hcons hdeq).trans hpc
      obtain ⟨hcount, hnone, hsome⟩ :=
        ih hpc' (fun hmem => hrest (List.mem_cons_of_mem _ hmem)) hrun'
      rw [Machine.trace_cons hstep]
      refine ⟨by rw [List.count_cons_of_ne hcons, hcount], ?_, ?_⟩
      · rw [List.mem_append, not_or]
        exact ⟨fun hmem => hcons (eq_consumer_of_dequeue_mem hmem), hnone⟩
      · rw [FifoOp.dequeued_append, dequeued_returns_of_ne hcons, hsome, List.append_nil]

/-- An undisturbed call never gives up, and with its last access it has delivered. -/
theorem undisturbed_run (hcap : checkCapacity capacity = .ok ()) {k : Nat} {rest : List Action}
    (hk : k ≤ 4) (hs : Inv capacity s) (heven : s.data.seq % 2 = 0)
    (hne : s.data.tail ≠ s.data.head) (hpc : s.consumer = undisturbedPc capacity s.data k)
    (hrest : .dequeue ∉ rest)
    (hseq : ∀ before u, before <+: rest → (machine capacity).exec s before = some u →
      u.data.seq = s.data.seq)
    (hrun : (machine capacity).exec s rest = some t) :
    FifoOp.dequeue none ∉ (machine capacity).trace returns s rest ∧
      (rest.count .consumer = 5 - k → FifoOp.dequeued ((machine capacity).trace returns s rest) =
        [s.data.buffer s.data.tail.toNat]) := by
  induction rest generalizing s k with
  | nil => simpa using by omega
  | cons a rest ih =>
      obtain ⟨r, hstep, hrun'⟩ := Machine.exec_cons_eq_some.mp hrun
      have hdeq : a ≠ .dequeue := fun heq => hrest (heq ▸ List.mem_cons_self)
      have hrest' : .dequeue ∉ rest := fun hmem => hrest (List.mem_cons_of_mem _ hmem)
      have hr : Inv capacity r := inv_step hcap hs hstep
      have hrseq : r.data.seq = s.data.seq :=
        hseq [a] r ⟨rest, rfl⟩ (Machine.exec_singleton.mpr hstep)
      have hseq' : r.data = s.data → ∀ before u, before <+: rest →
          (machine capacity).exec r before = some u → u.data.seq = r.data.seq := by
        intro hdata before u hbefore hexec
        rw [hdata]
        exact hseq (a :: before) u (List.cons_prefix_cons.mpr ⟨rfl, hbefore⟩)
          (Machine.exec_cons_eq_some.mpr ⟨r, hstep, hexec⟩)
      rw [Machine.trace_cons hstep, List.mem_append, not_or, FifoOp.dequeued_append]
      by_cases hcons : a = .consumer
      · subst hcons
        by_cases hlast : k = 4
        · -- the call returns, and nothing is delivered after it
          subst hlast
          obtain ⟨hidle, hreturns⟩ := undisturbed_return hpc hstep
          obtain ⟨_, hnone, hsome⟩ := idle_run hidle hrest' hrun'
          rw [hreturns, hsome]
          exact ⟨⟨by simp, hnone⟩, fun _ => rfl⟩
        · obtain ⟨hdata, hpc', hreturns⟩ :=
            undisturbed_advance (by omega) heven hne hpc hstep
          obtain ⟨hnone, hsome⟩ := ih (k := k + 1) (by omega) hr (hdata ▸ heven) (hdata ▸ hne)
            (hdata ▸ hpc') hrest' (hseq' hdata) hrun'
          rw [hreturns, List.count_cons_self]
          refine ⟨⟨by simp, hnone⟩, fun hcount => ?_⟩
          rw [hsome (by omega), hdata]
          rfl
      · have hdata : r.data = s.data := data_eq_of_seq_eq hs heven hstep hrseq hcons
        have hpc' : r.consumer = s.consumer := consumer_eq_of_ne hstep hcons hdeq
        obtain ⟨hnone, hsome⟩ := ih hk hr (hdata ▸ heven) (hdata ▸ hne)
          (by rw [hpc', hpc, hdata]) hrest' (hseq' hdata) hrun'
        rw [List.count_cons_of_ne hcons, dequeued_returns_of_ne hcons, List.nil_append]
        refine ⟨⟨fun hmem => hcons (eq_consumer_of_dequeue_mem hmem), hnone⟩, fun hcount => ?_⟩
        rw [hsome hcount, hdata]

/-- **`SpscQueueSeqLock` is a first-in first-out queue of `GetRealCapacity()` items** that may give
up: in any run what is dequeued is, in order, a prefix of what is enqueued, never too many items
are held, an `Enqueue` is refused only at an instant at which the queue is full, and the counter is
odd exactly between the two increments of an `Enqueue`. A `Dequeue` that starts with an item held
and an even counter, and sees no increment, delivers that item. -/
theorem seqLock_fifo (hcap : checkCapacity capacity = .ok ()) {acts : List Action}
    (hrun : (machine capacity).exec (initial 0) acts = some s) :
    let history := (machine capacity).trace returns (initial 0) acts
    FifoOp.dequeued history <+: FifoOp.enqueued history ∧
      (s.data.items capacity).length ≤ (realCapacity capacity).toNat ∧
      (∀ a item, .enqueue item false ∈ returns s a →
        (s.data.items capacity).length = (realCapacity capacity).toNat) ∧
      (s.data.seq.toNat % 2 = 1 ↔ inSection s.producer = true) ∧
      ∀ rest t, s.consumer = .idle → s.data.items capacity ≠ [] → s.data.seq % 2 = 0 →
        Undisturbed capacity s rest → (machine capacity).exec s (.dequeue :: rest) = some t →
        let call := (machine capacity).trace returns s (.dequeue :: rest)
        .dequeue none ∉ call ∧
          (rest.count .consumer = 5 → FifoOp.dequeued call = (s.data.items capacity).take 1) := by
  have hs : Inv capacity s := inv_of_exec hcap rfl hrun
  refine ⟨dequeued_prefix_enqueued hcap rfl hrun, QueueSlots.length_items_le hcap hs.bounded,
    fun _ _ h => length_items_of_refused hcap hs h, seq_odd_iff hs, ?_⟩
  intro rest t hidle hitems heven hundisturbed hexec
  obtain ⟨hrest, hseq⟩ := hundisturbed
  have hne : s.data.tail ≠ s.data.head :=
    fun heq => hitems ((QueueSlots.items_eq_nil_iff hs.bounded).mpr heq)
  obtain ⟨r, hstep, hrun'⟩ := Machine.exec_cons_eq_some.mp hexec
  have hr : r = { s with consumer := .loadTail s.data.head } := by
    simpa [machine, step, hidle, eq_comm] using hstep
  subst hr
  have hseq' := fun before u hbefore hu =>
    hseq before u hbefore (Machine.exec_cons_eq_some.mpr ⟨_, hstep, hu⟩)
  obtain ⟨hnone, hsome⟩ := undisturbed_run (s := { s with consumer := .loadTail s.data.head }) hcap
    (Nat.zero_le 4) (inv_step (a := .dequeue) hcap hs hstep) heven hne rfl hrest hseq' hrun'
  have hcall : (machine capacity).trace returns s (.dequeue :: rest) =
      (machine capacity).trace returns { s with consumer := .loadTail s.data.head } rest := by
    rw [Machine.trace_cons hstep]
    rfl
  rw [hcall]
  refine ⟨hnone, fun hcount => ?_⟩
  rw [hsome hcount, QueueSlots.items_storeTail hcap hs.bounded hne]
  rfl

theorem seqLock_fifo_one_item :
    ∃ acts s, (machine 2).exec (initial 0) acts = some s ∧
      FifoOp.dequeued ((machine 2).trace returns (initial 0) acts) = [7] ∧
      FifoOp.dequeued ((machine 2).trace returns (initial 0) acts) <+:
        FifoOp.enqueued ((machine 2).trace returns (initial 0) acts) :=
  let acts := [.enqueue 7, .dequeue] ++ List.replicate 5 .producer ++
    [.consumer, .dequeue] ++ List.replicate 5 .consumer
  ⟨acts, _, rfl, rfl, (seqLock_fifo (show checkCapacity 2 = .ok () by decide)
    (show (machine 2).exec (initial 0) acts = some _ from rfl)).1⟩

end MatrixTransposer.SpscQueueSeqLock
