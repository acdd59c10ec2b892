import MatrixTransposer.Proof.SeqLockInvariant

/-!
# The counter does not come back

`Dequeue` takes equal values of the counter for an unchanged queue. The counter wraps, so for that
it must not get all the way round while a `Dequeue` is held up between its two loads. It cannot:
each `Enqueue` adds two to it and one item to the queue, and nobody takes an item out before the
held up call has returned. Until the queue is full the counter moves by less than twice the
capacity, which is at most `2 ^ 64`.
-/

namespace MatrixTransposer.SpscQueueSeqLock

open Lib

variable {capacity : UInt64} {s t : State} {a : Action}

/-- The producer's accesses from its first increment of the counter to its second. -/
inductive SectionAccess where
  | openSeq
  | storeSlot
  | storeHead
  | closeSeq
  deriving DecidableEq

/-- The access of its section that the producer makes with this action, if it makes one. -/
def sectionAccess (s : State) : Action → List SectionAccess
  | .producer =>
      match s.producer with
      | .openSeq .. => [.openSeq]
      | .storeSlot .. => [.storeSlot]
      | .storeHead .. => [.storeHead]
      | .closeSeq _ => [.closeSeq]
      | _ => []
  | _ => []

/-! ### Increments and items -/

def SectionAccess.increment : SectionAccess → Nat
  | .openSeq | .closeSeq => 1
  | .storeSlot | .storeHead => 0

def increments (accesses : List SectionAccess) : Nat :=
  (accesses.map SectionAccess.increment).sum

theorem increments_concat (accesses : List SectionAccess) (access : SectionAccess) :
    increments (accesses ++ [access]) = increments accesses + access.increment := by
  simp [increments]

/-- The consumer has loaded the counter once and not compared it. -/
def Holds (seqStart : UInt64) : DequeuePc → Prop
  | .loadSlot _ seq | .loadSeqEnd seq _ _ => seq = seqStart
  | _ => False

/-- The call is past the comparison. -/
def past : DequeuePc → Bool
  | .idle | .storeTail .. => true
  | _ => false

/-- By how much the increments are ahead of the two that each item brings. -/
def lead : EnqueuePc → Int
  | .storeSlot .. | .storeHead .. => 1
  | .closeSeq _ => -1
  | _ => 0

/-- What holds while the comparison is still to come: no item is taken, so every two increments have
brought one to the `held` ones. -/
structure Watched (capacity seqStart : UInt64) (held : Nat) (s : State)
    (accesses : List SectionAccess) : Prop where
  inv : Inv capacity s
  holds : Holds seqStart s.consumer
  seq : s.data.seq = seqStart + UInt64.ofNat (increments accesses)
  paired : (increments accesses : Int) + 2 * held =
    2 * (s.data.items capacity).length + lead s.producer
  none_of_zero : increments accesses = 0 → accesses = []

theorem seq_succ {seq seqStart : UInt64} {n m : Nat} (h : seq = seqStart + UInt64.ofNat n)
    (hm : m = n + 1) : seq + 1 = seqStart + UInt64.ofNat m := by
  rw [hm, h, UInt64.ofNat_add, UInt64.add_assoc]
  rfl

namespace Watched

variable {seqStart : UInt64} {held : Nat} {accesses : List SectionAccess}

theorem step (hcap : checkCapacity capacity = .ok ())
    (hs : Watched capacity seqStart held s accesses) (h : step capacity s a = some t)
    (ha : a ≠ .dequeue) :
    past t.consumer = true ∨ Watched capacity seqStart held t (accesses ++ sectionAccess s a) := by
  have ht := inv_step hcap hs.inv h
  obtain ⟨⟨hbounded, hproducer, -, -⟩, hholds, hseq, hpaired, hnone⟩ := hs
  cases move_of_step h with
  | loadHead hpc | full hpc _ | room hpc _ =>
      rw [hpc] at hpaired
      simp only [sectionAccess, hpc, List.append_nil]
      exact .inr ⟨ht, hholds, hseq, hpaired, hnone⟩
  | openSeq hpc =>
      have hone : increments (accesses ++ [.openSeq]) = increments accesses + 1 :=
        increments_concat _ _
      simp only [sectionAccess, hpc, lead] at hpaired ⊢
      refine .inr ⟨ht, hholds, seq_succ hseq hone, ?_, fun hzero => by omega⟩
      change _ = 2 * ((s.data.items capacity).length : Int) + 1
      omega
  | storeSlot hpc =>
      have hsame : increments (accesses ++ [.storeSlot]) = increments accesses :=
        increments_concat _ _
      rw [hpc] at hproducer
      obtain ⟨rfl, -⟩ := hproducer
      simp only [sectionAccess, hpc, lead] at hpaired ⊢
      -- a section that is open has made an increment: the lead is odd
      refine .inr ⟨ht, hholds, hsame ▸ hseq, ?_, fun hzero => by omega⟩
      change _ = 2 * (((s.data.toQueueSlots.storeSlot _ _).items capacity).length : Int) + 1
      rw [QueueSlots.items_storeSlot hbounded]
      omega
  | storeHead hpc =>
      have hsame : increments (accesses ++ [.storeHead]) = increments accesses :=
        increments_concat _ _
      rw [hpc] at hproducer
      obtain ⟨rfl, hroom, -⟩ := hproducer
      simp only [sectionAccess, hpc, lead] at hpaired ⊢
      refine .inr ⟨ht, hholds, hsame ▸ hseq, ?_, fun hzero => by omega⟩
      change _ = 2 * (((s.data.toQueueSlots.storeHead _).items capacity).length : Int) + -1
      rw [QueueSlots.items_storeHead hcap hbounded hroom, List.length_append,
        List.length_singleton]
      omega
  | closeSeq hpc =>
      have hone : increments (accesses ++ [.closeSeq]) = increments accesses + 1 :=
        increments_concat _ _
      simp only [sectionAccess, hpc, lead] at hpaired ⊢
      refine .inr ⟨ht, hholds, seq_succ hseq hone, ?_, fun hzero => by omega⟩
      change _ = 2 * ((s.data.items capacity).length : Int) + 0
      omega
  | dequeue hpc => exact absurd rfl ha
  | empty hpc | occupied hpc | odd hpc | even hpc | storeTail hpc =>
      rw [hpc] at hholds
      exact hholds.elim
  | loadSlot hpc =>
      rw [hpc] at hholds
      simp only [sectionAccess, List.append_nil]
      exact .inr ⟨ht, hholds, hseq, hpaired, hnone⟩
  | unmoved | moved => exact .inl rfl

/-- The counter has not got all the way round. -/
theorem increments_lt (hcap : checkCapacity capacity = .ok ())
    (hs : Watched capacity seqStart held s accesses) : increments accesses < 2 ^ 64 := by
  obtain ⟨k, -, hpow⟩ := checkCapacity_eq_ok_iff_pow.mp hcap
  have hsize : capacity.toNat < 2 ^ 64 := capacity.toNat_lt
  have hk : k ≤ 63 := by
    rw [hpow] at hsize
    exact Nat.lt_succ_iff.mp ((Nat.pow_lt_pow_iff_right (by decide)).mp hsize)
  have hhalf : capacity.toNat ≤ 2 ^ 63 := by
    rw [hpow]
    exact Nat.pow_le_pow_right (by decide) hk
  have hlen := QueueSlots.length_items_lt hs.inv.bounded
  have hlead : lead s.producer ≤ 1 := by
    cases s.producer <;> simp [lead]
  have hpaired := hs.paired
  omega

theorem seq_eq_iff (hcap : checkCapacity capacity = .ok ())
    (hs : Watched capacity seqStart held s accesses) :
    s.data.seq = seqStart ↔ accesses = [] := by
  rw [hs.seq]
  constructor
  · intro heq
    apply hs.none_of_zero
    have hzero : UInt64.ofNat (increments accesses) = 0 := by simpa using heq
    have hmod := congrArg UInt64.toNat hzero
    rwa [UInt64.toNat_ofNat', Nat.mod_eq_of_lt (hs.increments_lt hcap), UInt64.toNat_zero] at hmod
  · rintro rfl
    exact UInt64.add_zero _

end Watched

/-! ### From one load to the other -/

theorem past_of_step (hpast : past s.consumer = true) (h : step capacity s a = some t)
    (ha : a ≠ .dequeue) : past t.consumer = true := by
  cases move_of_step h with
  | loadHead | full | room | openSeq | storeSlot | storeHead | closeSeq => exact hpast
  | dequeue => exact absurd rfl ha
  | empty | odd | unmoved | moved | storeTail => rfl
  | occupied hpc | even hpc | loadSlot hpc =>
      rw [hpc] at hpast
      cases hpast

theorem lead_of_not_inSection {pc : EnqueuePc} (h : inSection pc = false) : lead pc = 0 := by
  cases pc <;> first | rfl | cases h

/-- The first load. An odd counter ends the call. -/
theorem past_or_watched_of_load (hcap : checkCapacity capacity = .ok ()) (hs : Inv capacity s)
    {tail : UInt64} (hload : s.consumer = .loadSeqStart tail)
    (h : step capacity s .consumer = some t) :
    past t.consumer = true ∨
      s.data.seq % 2 = 0 ∧ Watched capacity s.data.seq (s.data.items capacity).length t [] := by
  have ht := inv_step hcap hs h
  cases move_of_step h with
  | odd => exact .inl rfl
  | even hpc heven =>
      have hout := not_inSection_of_even hs.parity heven
      refine .inr ⟨heven, ht, rfl, (UInt64.add_zero _).symm, ?_, fun _ => rfl⟩
      simp [lead_of_not_inSection hout, increments]
  | empty hpc | occupied hpc | loadSlot hpc | unmoved hpc | moved hpc | storeTail hpc =>
      rw [hload] at hpc
      cases hpc

theorem watched_of_exec (hcap : checkCapacity capacity = .ok ()) (hs : Inv capacity s)
    {tail seqStart nextTail : UInt64} {item : UInt32} {between : List Action}
    (hload : s.consumer = .loadSeqStart tail) (hcall : .dequeue ∉ between)
    (hrun : (machine capacity).exec s (.consumer :: between) = some t)
    (hend : t.consumer = .loadSeqEnd seqStart item nextTail) :
    s.data.seq % 2 = 0 ∧ Watched capacity s.data.seq (s.data.items capacity).length t
      ((machine capacity).trace sectionAccess s (.consumer :: between)) := by
  let Reached (s' : State) (accesses : List SectionAccess) : Prop := past s'.consumer = true ∨
    s.data.seq % 2 = 0 ∧ Watched capacity s.data.seq (s.data.items capacity).length s' accesses
  obtain ⟨r, hfirst, hrest⟩ := Machine.exec_cons_eq_some.mp hrun
  have hstart : Reached r [] := past_or_watched_of_load hcap hs hload hfirst
  have hkeep : ∀ a ∈ between, ∀ s' accesses t', Reached s' accesses →
      (machine capacity).step s' a = some t' → Reached t' (accesses ++ sectionAccess s' a) := by
    intro a hmem s' accesses t' hreached hstep
    have ha : a ≠ .dequeue := fun heq => hcall (heq ▸ hmem)
    rcases hreached with hpast | ⟨heven, hwatched⟩
    · exact .inl (past_of_step hpast hstep ha)
    · exact (hwatched.step hcap hstep ha).imp_right fun hnext => ⟨heven, hnext⟩
  rw [Machine.trace_cons hfirst]
  rcases Machine.exec_trace_invariant_of_mem hkeep hstart hrest with hpast | hwatched
  · rw [hend] at hpast
    cases hpast
  · exact hwatched

/-- **The comparison of the counter cannot be fooled.** In a run from any even value of the counter,
let a `Dequeue` load it, and let the same call be about to load it again after any actions of the
two sides. The counter was even, and it has its value again exactly if the producer has made no
access of its section in between, however many calls it has made. -/
theorem seq_eq_iff_no_access (hcap : checkCapacity capacity = .ok ()) {seq : UInt64}
    (hseq : seq.toNat % 2 = 0) {before between : List Action} {tail seqStart nextTail : UInt64}
    {item : UInt32} (hbefore : (machine capacity).exec (initial seq) before = some s)
    (hload : s.consumer = .loadSeqStart tail) (hcall : .dequeue ∉ between)
    (hrun : (machine capacity).exec s (.consumer :: between) = some t)
    (hend : t.consumer = .loadSeqEnd seqStart item nextTail) :
    seqStart = s.data.seq ∧ s.data.seq % 2 = 0 ∧
      (t.data.seq = seqStart ↔
        (machine capacity).trace sectionAccess s (.consumer :: between) = []) := by
  have hs : Inv capacity s := inv_of_exec hcap hseq hbefore
  obtain ⟨heven, hwatched⟩ := watched_of_exec hcap hs hload hcall hrun hend
  have hsame : seqStart = s.data.seq := by
    have hholds := hwatched.holds
    rwa [hend] at hholds
  exact ⟨hsame, heven, hsame ▸ hwatched.seq_eq_iff hcap⟩

/-- A whole `Enqueue` between the two loads, the counter wrapping in it. -/
theorem seq_eq_iff_no_access_wrapping :
    ∃ s t, (machine 4).exec (initial 18446744073709551612)
        (.enqueue 7 :: List.replicate 5 .producer ++ [.dequeue, .consumer]) = some s ∧
      (machine 4).exec s ([.consumer, .consumer, .enqueue 8] ++ List.replicate 5 .producer) =
        some t ∧
      s.data.seq = 18446744073709551614 ∧ t.data.seq = 0 ∧
      (machine 4).trace sectionAccess s
        ([.consumer, .consumer, .enqueue 8] ++ List.replicate 5 .producer) ≠ [] :=
  have hcompared := seq_eq_iff_no_access (show checkCapacity 4 = .ok () by decide)
    (show (18446744073709551612 : UInt64).toNat % 2 = 0 by decide)
    (show (machine 4).exec (initial 18446744073709551612)
      (.enqueue 7 :: List.replicate 5 .producer ++ [.dequeue, .consumer]) = some _ from rfl)
    (show _ = DequeuePc.loadSeqStart 0 from rfl)
    (show Action.dequeue ∉ [.consumer, .enqueue 8] ++ List.replicate 5 .producer by decide)
    (show (machine 4).exec _ _ = some _ from rfl)
    (show _ = DequeuePc.loadSeqEnd 18446744073709551614 7 1 from rfl)
  ⟨_, _, rfl, rfl, rfl, rfl, fun hnone => absurd (hcompared.2.2.mpr hnone) (by decide)⟩

end MatrixTransposer.SpscQueueSeqLock
