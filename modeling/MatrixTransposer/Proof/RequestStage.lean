import MatrixTransposer.Lib.Rounds
import MatrixTransposer.Proof.FutexSignal
import MatrixTransposer.Proof.SeqLockFifo
import MatrixTransposer.RequestCycle

/-!
# The stages of a request

At any time a client has at most one request, and the request is in one place: with the client's
`Enqueue`, in the queue, with the dispatcher, or in the futex word. The stage says where, and it
determines what the queue holds, what the word is, and where the client and the dispatcher may
stand. `Enqueue` runs only on an empty queue, so it is never refused; `Wake` sets a word that is
zero, so no signal is merged with another.
-/

namespace MatrixTransposer

open Lib

/-! ## Calls on a queue of at most one item -/

namespace SpscQueueSeqLock

variable {capacity : UInt64} {s t : State}

def EnqueuePc.item : EnqueuePc → Option UInt32
  | .idle => none
  | .loadTail item _ _ | .openSeq item _ _ | .storeSlot item _ _ | .storeHead item _
  | .closeSeq item => some item

/-- What an `Enqueue` that found the queue empty does with one access. -/
theorem enqueue_step_empty (hcap : checkCapacity capacity = .ok ()) (hs : Inv capacity s)
    {item : UInt32} (hitem : s.producer.item = some item)
    (hitems : s.data.items capacity = pending s.producer)
    (h : step capacity s .producer = some t) :
    t.consumer = s.consumer ∧
      ((t.producer.item = some item ∧ t.data.items capacity = pending t.producer ∧
          returns s .producer = []) ∨
        (t.producer = .idle ∧ t.data.items capacity = [item] ∧
          returns s .producer = [.enqueue item true])) := by
  have hsim := step_simulates hcap hs h
  cases move_of_step h with
  | @full refused head nextHead hpc hfull =>
      -- a full queue holds an item
      have htwo := two_le_capacity hcap
      have hmem : .enqueue refused false ∈ returns s .producer := by
        simp only [returns, hpc, if_pos hfull]
        exact List.mem_singleton_self _
      have hlength := length_items_of_refused hcap hs hmem
      rw [hitems, hpc, realCapacity_toNat hcap] at hlength
      simp only [pending, List.length_nil] at hlength
      omega
  | room hpc hroom =>
      rw [hpc] at hitem hitems
      exact ⟨rfl, Or.inl ⟨hitem, hitems, by simp [returns, hpc, hroom]⟩⟩
  | openSeq hpc =>
      rw [hpc] at hitem hitems
      exact ⟨rfl, Or.inl ⟨hitem, hitems, by simp [returns, hpc]⟩⟩
  | storeSlot hpc =>
      rw [hpc] at hitem hitems
      simp only [effects, hpc, Machine.exec_nil, Option.some.injEq] at hsim
      exact ⟨rfl, Or.inl ⟨hitem, hsim.symm.trans hitems, by simp [returns, hpc]⟩⟩
  | @storeHead item' nextHead hpc =>
      rw [hpc] at hitem hitems
      simp only [effects, hpc] at hsim
      have hfifo := boundedFifo.enqueued_eq_dequeued_append hsim
      rw [hitems] at hfifo
      exact ⟨rfl, Or.inl ⟨hitem, hfifo.symm, by simp [returns, hpc]⟩⟩
  | closeSeq hpc =>
      rw [hpc] at hitem hitems
      cases hitem
      exact ⟨rfl, Or.inr ⟨rfl, hitems, by simp [returns, hpc]⟩⟩

theorem dequeue_step_cases (hcap : checkCapacity capacity = .ok ()) (hs : Inv capacity s)
    (h : step capacity s .consumer = some t) :
    t.producer = s.producer ∧
      ((t.data = s.data ∧ t.consumer ≠ .idle ∧ returns s .consumer = []) ∨
        (t.data = s.data ∧ t.consumer = .idle ∧ returns s .consumer = [.dequeue none]) ∨
        ∃ item, s.data.items capacity = item :: t.data.items capacity ∧ t.consumer = .idle ∧
          returns s .consumer = [.dequeue (some item)] ∧
          Settled capacity s.data s.producer) := by
  have hconsumer := hs.consumer
  cases move_of_step h with
  | empty hpc hempty => exact ⟨rfl, Or.inr (Or.inl ⟨rfl, rfl, by simp [returns, hpc, hempty]⟩)⟩
  | odd hpc hodd => exact ⟨rfl, Or.inr (Or.inl ⟨rfl, rfl, by simp [returns, hpc, hodd]⟩)⟩
  | moved hpc hseq => exact ⟨rfl, Or.inr (Or.inl ⟨rfl, rfl, by simp [returns, hpc, hseq]⟩)⟩
  | occupied hpc hne => exact ⟨rfl, Or.inl ⟨rfl, by simp, by simp [returns, hpc, hne]⟩⟩
  | even hpc heven => exact ⟨rfl, Or.inl ⟨rfl, by simp, by simp [returns, hpc, heven]⟩⟩
  | loadSlot hpc => exact ⟨rfl, Or.inl ⟨rfl, by simp, by simp [returns, hpc]⟩⟩
  | unmoved hpc hseq => exact ⟨rfl, Or.inl ⟨rfl, by simp, by simp [returns, hpc, hseq]⟩⟩
  | @storeTail item nextTail hpc =>
      rw [hpc] at hconsumer
      obtain ⟨rfl, hne, rfl, hsettled⟩ := hconsumer
      have hpop := QueueSlots.items_storeTail hcap hs.bounded hne
      exact ⟨rfl, Or.inr (Or.inr ⟨_, hpop, rfl, by simp [returns, hpc], hsettled⟩)⟩

end SpscQueueSeqLock

namespace RequestCycle

theorem checkCapacity_reqQueueCapacity : checkCapacity reqQueueCapacity = .ok () := by decide

/-! ## Rounds and stages -/

def round (bufferIndex : UInt32) : List Event :=
  [.called bufferIndex, .enqueued bufferIndex true, .dequeued bufferIndex, .transposed bufferIndex,
    .raised, .waited bufferIndex]

/-- How far the client's request has come. -/
inductive Stage where
  | resting
  | calling (bufferIndex : UInt32)
  | posted (bufferIndex : UInt32)
  | taken (bufferIndex : UInt32)
  | transposed (bufferIndex : UInt32)
  | raised (bufferIndex : UInt32)

namespace Stage

def owed : Stage → List Event
  | .resting => []
  | .calling bufferIndex => (round bufferIndex).drop 1
  | .posted bufferIndex => (round bufferIndex).drop 2
  | .taken bufferIndex => (round bufferIndex).drop 3
  | .transposed bufferIndex => (round bufferIndex).drop 4
  | .raised bufferIndex => (round bufferIndex).drop 5

def items (producer : SpscQueueSeqLock.EnqueuePc) : Stage → List UInt32
  | .calling _ => SpscQueueSeqLock.pending producer
  | .posted bufferIndex => [bufferIndex]
  | _ => []

def word : Stage → UInt32
  | .raised _ => 1
  | _ => 0

/-- The request is not with the client any more, and has not been answered. -/
def Awaited (bufferIndex : UInt32) : Stage → Prop
  | .posted b | .taken b | .transposed b | .raised b => b = bufferIndex
  | _ => False

/-- The request is not with the dispatcher. -/
def Free : Stage → Prop
  | .taken _ | .transposed _ => False
  | _ => True

/-- From one stage to another a round goes on by these events. -/
def Leads (before : Stage) (events : List Event) (after : Stage) : Prop :=
  ∀ history, Rounds round history before.owed → Rounds round (history ++ events) after.owed

theorem Leads.refl (stage : Stage) : stage.Leads [] stage := by
  intro history h
  rwa [List.append_nil]

theorem leads_calling (bufferIndex : UInt32) :
    resting.Leads [.called bufferIndex] (calling bufferIndex) := by
  intro history h
  apply Rounds.pay
  exact h.start bufferIndex

theorem leads_of_owed {before after : Stage} {events : List Event}
    (howed : before.owed = events ++ after.owed) : before.Leads events after := by
  intro history h
  apply Rounds.pay
  rwa [← howed]

end Stage

/-! ## Where the two sides stand -/

def MainFacts (stage : Stage) (producer : SpscQueueSeqLock.EnqueuePc)
    (thread : FutexSignaller.ThreadPc) : MainPc → Prop
  | .loop _ _ | .done => stage = .resting ∧ producer = .idle ∧ thread = .idle
  | .enqueue _ bufferIndex =>
      stage = .calling bufferIndex ∧ producer.item = some bufferIndex ∧ thread = .idle
  | .callWait _ bufferIndex => stage.Awaited bufferIndex ∧ producer = .idle ∧ thread = .idle
  | .wait _ bufferIndex =>
      stage.Awaited bufferIndex ∧ producer = .idle ∧
        (thread = .waitExchange ∨ thread = .waitCall ∨ thread = .asleep)

def WorkFacts (stage : Stage) (consumer : SpscQueueSeqLock.DequeuePc)
    (thread : FutexSignaller.ThreadPc) : WorkPc → Prop
  | .callDequeue | .leave _ => stage.Free ∧ consumer = .idle ∧ thread = .idle
  | .dequeue => stage.Free ∧ consumer ≠ .idle ∧ thread = .idle
  | .transpose bufferIndex => stage = .taken bufferIndex ∧ consumer = .idle ∧ thread = .idle
  | .callWake => (∃ b, stage = .transposed b) ∧ consumer = .idle ∧ thread = .idle
  | .wake =>
      consumer = .idle ∧
        ((∃ b, stage = .transposed b) ∧ thread = .wakeExchange ∨
          stage.Free ∧ thread = .wakeCall)

/-- The client `c`, on which the dispatcher's work stands at `work`, is at a stage. -/
structure Client.At (stage : Stage) (c : Client) (work : WorkPc) : Prop where
  queue : SpscQueueSeqLock.Inv reqQueueCapacity c.queue
  futex : FutexSignaller.Inv c.futex
  items : c.queue.data.items reqQueueCapacity = stage.items c.queue.producer
  word : c.futex.word = stage.word
  main : MainFacts stage c.queue.producer (c.futex.pc .client) c.main
  work : WorkFacts stage c.queue.consumer (c.futex.pc .server) work

variable {stage after : Stage} {c c' : Client} {work work' : WorkPc}

/-- While the request is not with the dispatcher, its work does not depend on the stage. -/
theorem WorkFacts.of_free {consumer : SpscQueueSeqLock.DequeuePc}
    {thread : FutexSignaller.ThreadPc} (h : WorkFacts stage consumer thread work)
    (hfree : stage.Free) (hafter : after.Free) : WorkFacts after consumer thread work := by
  cases work with
  | callDequeue | leave => exact ⟨hafter, h.2⟩
  | dequeue => exact ⟨hafter, h.2⟩
  | transpose =>
      rw [h.1] at hfree
      exact hfree.elim
  | callWake =>
      obtain ⟨⟨b, rfl⟩, -⟩ := h
      exact hfree.elim
  | wake =>
      obtain ⟨hconsumer, ⟨⟨b, rfl⟩, -⟩ | ⟨-, hthread⟩⟩ := h
      · exact hfree.elim
      · exact ⟨hconsumer, Or.inr ⟨hafter, hthread⟩⟩

/-- The client's side, when the dispatcher takes the request or gives its answer. -/
theorem MainFacts.of_awaited {producer : SpscQueueSeqLock.EnqueuePc}
    {thread : FutexSignaller.ThreadPc} {main : MainPc} {bufferIndex : UInt32}
    (h : MainFacts stage producer thread main) (hstage : stage.Awaited bufferIndex)
    (hafter : after.Awaited bufferIndex) : MainFacts after producer thread main := by
  have heq : ∀ {b}, stage.Awaited b → after.Awaited b := by
    intro b hb
    have hbb : b = bufferIndex := by
      cases stage <;> first | exact hb.symm.trans hstage | exact hb.elim
    rwa [hbb]
  cases main with
  | loop | done =>
      obtain ⟨rfl, -⟩ := h
      exact hstage.elim
  | enqueue =>
      obtain ⟨rfl, -⟩ := h
      exact hstage.elim
  | callWait => exact ⟨heq h.1, h.2⟩
  | wait => exact ⟨heq h.1, h.2⟩

/-- `FUTEX_WAKE` finds the client asleep, or somewhere where it changes nothing. -/
theorem MainFacts.awaken {producer : SpscQueueSeqLock.EnqueuePc} {thread : FutexSignaller.ThreadPc}
    {main : MainPc} (h : MainFacts stage producer thread main) :
    MainFacts stage producer (FutexSignaller.awaken thread) main := by
  cases main with
  | loop | enqueue | callWait | done =>
      obtain ⟨hstage, hproducer, rfl⟩ := h
      exact ⟨hstage, hproducer, rfl⟩
  | wait =>
      obtain ⟨hstage, hproducer, rfl | rfl | rfl⟩ := h
      · exact ⟨hstage, hproducer, Or.inl rfl⟩
      · exact ⟨hstage, hproducer, Or.inr (Or.inl rfl)⟩
      · exact ⟨hstage, hproducer, Or.inl rfl⟩

theorem Client.at_start (k requestRepetitions : UInt32) :
    (Client.start k requestRepetitions).At .resting .callDequeue where
  queue := SpscQueueSeqLock.inv_initial checkCapacity_reqQueueCapacity rfl
  futex := FutexSignaller.inv_initial
  items := QueueSlots.items_zero
  word := rfl
  main := ⟨rfl, rfl, rfl⟩
  work := ⟨trivial, rfl, rfl⟩

end RequestCycle

end MatrixTransposer
