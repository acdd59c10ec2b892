import MatrixTransposer.Proof.RequestStage

/-!
# The steps of a request

What the next step of `main`, or of the dispatcher's work, can be at a stage: one constructor for
each, with the stage after it and what it shows. Each step pays what it shows to the round, and
leads to a client that is at the next stage.
-/

namespace MatrixTransposer.RequestCycle

open Lib

variable {stage after : Stage} {c c' : Client} {work work' : WorkPc} {events : List Event}

/-! ## The client's steps -/

inductive MainMove (c : Client) : Stage → Client → Stage → List Event → Prop where
  | call {repetition bufferIndex : UInt32} {queue : SpscQueueSeqLock.State}
      (hpc : c.main = .loop repetition bufferIndex) (hrep : repetition < c.requestRepetitions)
      (hindex : bufferIndex < c.k) (hconsumer : queue.consumer = c.queue.consumer) :
      MainMove c .resting { c with queue := queue, main := .enqueue repetition bufferIndex }
        (.calling bufferIndex) [.called bufferIndex]
  | next {repetition bufferIndex : UInt32} (hpc : c.main = .loop repetition bufferIndex)
      (hrep : repetition < c.requestRepetitions) (hindex : ¬ bufferIndex < c.k) :
      MainMove c .resting { c with main := .loop (repetition + 1) 0 } .resting []
  | finish {repetition bufferIndex : UInt32} (hpc : c.main = .loop repetition bufferIndex)
      (hrep : ¬ repetition < c.requestRepetitions) :
      MainMove c .resting { c with main := .done } .resting []
  | enqueue {repetition bufferIndex : UInt32} {queue : SpscQueueSeqLock.State}
      (hpc : c.main = .enqueue repetition bufferIndex)
      (hconsumer : queue.consumer = c.queue.consumer) :
      MainMove c (.calling bufferIndex) { c with queue := queue } (.calling bufferIndex) []
  | enqueued {repetition bufferIndex : UInt32} {queue : SpscQueueSeqLock.State}
      (hpc : c.main = .enqueue repetition bufferIndex)
      (hconsumer : queue.consumer = c.queue.consumer) :
      MainMove c (.calling bufferIndex)
        { c with queue := queue, main := .callWait repetition bufferIndex } (.posted bufferIndex)
        [.enqueued bufferIndex true]
  | callWait {stage : Stage} {repetition bufferIndex : UInt32}
      (hpc : c.main = .callWait repetition bufferIndex) (hthread : c.futex.pc .client = .idle) :
      MainMove c stage
        { c with
          futex := c.futex.setPc .client .waitExchange
          main := .wait repetition bufferIndex }
        stage []
  | wait {stage : Stage} {repetition bufferIndex : UInt32} {thread : FutexSignaller.ThreadPc}
      (hpc : c.main = .wait repetition bufferIndex)
      (hthread : c.futex.pc .client = .waitExchange ∧ c.futex.word ≠ 1 ∧ thread = .waitCall ∨
        c.futex.pc .client = .waitCall ∧ c.futex.word = 0 ∧ thread = .asleep ∨
        c.futex.pc .client = .waitCall ∧ c.futex.word ≠ 0 ∧ thread = .waitExchange) :
      MainMove c stage { c with futex := c.futex.setPc .client thread } stage []
  | waited {repetition bufferIndex : UInt32} (hpc : c.main = .wait repetition bufferIndex) :
      MainMove c (.raised bufferIndex)
        { c with
          futex := { c.futex with word := 0 }.setPc .client .idle
          main := .loop repetition (bufferIndex + 1) }
        .resting [.waited bufferIndex]

theorem MainMove.leads (h : MainMove c stage c' after events) : stage.Leads events after := by
  cases h with
  | @call _ bufferIndex => exact Stage.leads_calling bufferIndex
  | enqueued | waited => exact Stage.leads_of_owed rfl
  | next | finish | enqueue | callWait | wait => exact Stage.Leads.refl _

theorem MainMove.frame (h : MainMove c stage c' after events) :
    c'.queue.consumer = c.queue.consumer ∧ c'.futex.pc .server = c.futex.pc .server := by
  cases h with
  | call _ _ _ hconsumer | enqueue _ hconsumer | enqueued _ hconsumer => exact ⟨hconsumer, rfl⟩
  | next | finish => exact ⟨rfl, rfl⟩
  | callWait | wait | waited => exact ⟨rfl, by simp [FutexSignaller.setPc_pc]⟩

/-- A step of the client's thread that does not change the word. -/
theorem Client.At.setThread (h : c.At stage work) {thread : FutexSignaller.ThreadPc} {main : MainPc}
    (hfutex : FutexSignaller.Inv (c.futex.setPc .client thread))
    (hmain : MainFacts stage c.queue.producer thread main) :
    ({ c with futex := c.futex.setPc .client thread, main := main } : Client).At stage work where
  queue := h.queue
  futex := hfutex
  items := h.items
  word := h.word
  main := by
    rw [FutexSignaller.setPc_pc, if_pos rfl]
    exact hmain
  work := by
    rw [FutexSignaller.setPc_pc, if_neg (by decide)]
    exact h.work

theorem Client.At.raised_of_word (h : c.At stage work) (hword : c.futex.word ≠ 0) :
    ∃ bufferIndex, stage = .raised bufferIndex := by
  have hstage := h.word
  cases stage with
  | raised bufferIndex => exact ⟨bufferIndex, rfl⟩
  | resting | calling | posted | taken | transposed => exact absurd hstage hword

theorem Client.At.step_loop (h : c.At stage work) {repetition bufferIndex : UInt32}
    (hpc : c.main = .loop repetition bufferIndex) (hstep : c.step = some c') :
    ∃ after, MainMove c stage c' after c.shows ∧ c'.At after work := by
  obtain ⟨hqueue, hfutex, hitems, hword, hmain, hwork⟩ := h
  rw [hpc] at hmain
  obtain ⟨rfl, hproducer, hthread⟩ := hmain
  by_cases hrep : repetition < c.requestRepetitions
  · by_cases hindex : bufferIndex < c.k
    · simp only [Client.step, hpc, if_pos hrep, if_pos hindex] at hstep
      obtain ⟨queue, henqueue, rfl⟩ := Option.map_eq_some_iff.mp hstep
      have hinv := SpscQueueSeqLock.inv_step checkCapacity_reqQueueCapacity hqueue henqueue
      have hshows : c.shows = [.called bufferIndex] := by
        simp only [shows, hpc, if_pos (And.intro hrep hindex)]
      rw [hshows]
      cases SpscQueueSeqLock.move_of_step henqueue with
      | loadHead =>
          exact ⟨.calling bufferIndex, .call hpc hrep hindex rfl, hinv, hfutex, hitems, hword,
            ⟨rfl, rfl, hthread⟩, hwork.of_free trivial trivial⟩
    · simp only [Client.step, hpc, if_pos hrep, if_neg hindex, Option.some.injEq] at hstep
      subst hstep
      have hshows : c.shows = [] := by
        simp only [shows, hpc, if_neg fun hboth => hindex (And.right hboth)]
      rw [hshows]
      exact ⟨.resting, .next hpc hrep hindex, hqueue, hfutex, hitems, hword,
        ⟨rfl, hproducer, hthread⟩, hwork⟩
  · simp only [Client.step, hpc, if_neg hrep, Option.some.injEq] at hstep
    subst hstep
    have hshows : c.shows = [] := by
      simp only [shows, hpc, if_neg fun hboth => hrep (And.left hboth)]
    rw [hshows]
    exact ⟨.resting, .finish hpc hrep, hqueue, hfutex, hitems, hword,
      ⟨rfl, hproducer, hthread⟩, hwork⟩

/-- The queue is empty when `Enqueue` is called, so it returns true. -/
theorem Client.At.step_enqueue (h : c.At stage work) {repetition bufferIndex : UInt32}
    (hpc : c.main = .enqueue repetition bufferIndex) (hstep : c.step = some c') :
    ∃ after, MainMove c stage c' after c.shows ∧ c'.At after work := by
  obtain ⟨hqueue, hfutex, hitems, hword, hmain, hwork⟩ := h
  rw [hpc] at hmain
  obtain ⟨rfl, hitem, hthread⟩ := hmain
  simp only [Client.step, hpc] at hstep
  obtain ⟨queue, henqueue, rfl⟩ := Option.map_eq_some_iff.mp hstep
  have hinv := SpscQueueSeqLock.inv_step checkCapacity_reqQueueCapacity hqueue henqueue
  obtain ⟨hconsumer, ⟨hitem', hitems', hreturns⟩ | ⟨hidle, hitems', hreturns⟩⟩ :=
    SpscQueueSeqLock.enqueue_step_empty checkCapacity_reqQueueCapacity hqueue hitem hitems
      henqueue
  · have hbusy : queue.producer ≠ .idle := by
      intro hidle
      rw [hidle] at hitem'
      cases hitem'
    have hshows : c.shows = [] := by
      simp only [shows, hpc, hreturns, List.flatMap_nil]
    rw [← hconsumer] at hwork
    rw [hshows, if_neg hbusy, ← hpc]
    refine ⟨.calling bufferIndex, .enqueue hpc hconsumer, hinv, hfutex, hitems', hword, ?_, hwork⟩
    rw [hpc]
    exact ⟨rfl, hitem', hthread⟩
  · have hshows : c.shows = [.enqueued bufferIndex true] := by
      simp only [shows, hpc, hreturns, List.flatMap_singleton]
    rw [← hconsumer] at hwork
    rw [hshows, if_pos hidle]
    exact ⟨.posted bufferIndex, .enqueued hpc hconsumer, hinv, hfutex, hitems', hword,
      ⟨rfl, hidle, hthread⟩, hwork.of_free trivial trivial⟩

theorem Client.At.step_wait (h : c.At stage work) {repetition bufferIndex : UInt32}
    (hpc : c.main = .wait repetition bufferIndex) (hstep : c.step = some c') :
    ∃ after, MainMove c stage c' after c.shows ∧ c'.At after work := by
  have hat := h
  obtain ⟨hqueue, hfutex, hitems, hword, hmain, hwork⟩ := h
  rw [hpc] at hmain
  obtain ⟨hawaited, hproducer, hthread⟩ := hmain
  simp only [Client.step, hpc] at hstep
  obtain ⟨futex, hrun, rfl⟩ := Option.map_eq_some_iff.mp hstep
  have hinv := FutexSignaller.inv_step hfutex hrun
  rcases FutexSignaller.wait_run_cases hthread hrun with ⟨hone, rfl, hsignals⟩ |
    ⟨thread, rfl, hsignals, hnext⟩
  · -- the word is set only by the wake-up for this request
    obtain ⟨b, rfl⟩ := hat.raised_of_word (by simp [hone])
    cases hawaited
    have hshows : c.shows = [.waited bufferIndex] := by
      simp only [shows, hpc, hsignals, List.map_cons, List.map_nil]
    rw [hshows, if_pos (by simp [FutexSignaller.setPc_pc])]
    refine ⟨.resting, .waited hpc, hqueue, hinv, hitems, rfl, ?_, ?_⟩
    · simp only [FutexSignaller.setPc_pc, if_true]
      exact ⟨rfl, hproducer, rfl⟩
    · have hresting : Stage.resting.Free := trivial
      simpa [FutexSignaller.setPc_pc] using hwork.of_free trivial hresting
  · have hthread' : thread = .waitExchange ∨ thread = .waitCall ∨ thread = .asleep := by
      rcases hnext with ⟨-, -, rfl⟩ | ⟨-, -, rfl⟩ | ⟨-, -, rfl⟩ <;> simp
    have hbusy : (c.futex.setPc .client thread).pc .client ≠ .idle := by
      rw [FutexSignaller.setPc_pc, if_pos rfl]
      rcases hthread' with rfl | rfl | rfl <;> simp
    have hshows : c.shows = [] := by
      simp only [shows, hpc, hsignals, List.map_nil]
    rw [hshows, if_neg hbusy, ← hpc]
    refine ⟨stage, .wait hpc hnext, hat.setThread hinv ?_⟩
    rw [hpc]
    exact ⟨hawaited, hproducer, hthread'⟩

theorem Client.At.step (h : c.At stage work) (hstep : c.step = some c') :
    ∃ after, MainMove c stage c' after c.shows ∧ c'.At after work := by
  cases hpc : c.main with
  | loop repetition bufferIndex => exact h.step_loop hpc hstep
  | enqueue repetition bufferIndex => exact h.step_enqueue hpc hstep
  | callWait repetition bufferIndex =>
      have hmain := h.main
      rw [hpc] at hmain
      obtain ⟨hawaited, hproducer, hthread⟩ := hmain
      simp only [Client.step, hpc] at hstep
      obtain ⟨futex, hwait, rfl⟩ := Option.map_eq_some_iff.mp hstep
      have hinv := FutexSignaller.inv_step h.futex hwait
      have hshows : c.shows = [] := by simp only [shows, hpc]
      rw [hshows]
      cases FutexSignaller.move_of_step hwait with
      | wait =>
          exact ⟨stage, .callWait hpc hthread, h.setThread hinv ⟨hawaited, hproducer, Or.inl rfl⟩⟩
  | wait repetition bufferIndex => exact h.step_wait hpc hstep
  | done =>
      simp only [Client.step, hpc] at hstep
      cases hstep

theorem Client.At.interrupt (h : c.At stage work) {futex : FutexSignaller.State Party}
    (hstep : FutexSignaller.step c.futex (.interrupt .client) = some futex) :
    ({ c with futex := futex } : Client).At stage work := by
  have hinv := FutexSignaller.inv_step h.futex hstep
  have hmain := h.main
  cases FutexSignaller.move_of_step hstep with
  | interrupt hsleep =>
      rw [hsleep] at hmain
      apply h.setThread hinv
      cases hpc : c.main with
      | wait repetition bufferIndex =>
          rw [hpc] at hmain
          exact ⟨hmain.1, hmain.2.1, Or.inl rfl⟩
      | loop | enqueue | callWait | done =>
          rw [hpc] at hmain
          cases hmain.2.2

/-! ## The dispatcher's steps -/

inductive ServeMove (c : Client) :
    Stage → WorkPc → Client → WorkPc → Stage → List Event → Prop where
  | callDequeue {stage : Stage} (hfree : stage.Free) :
      ServeMove c stage .callDequeue
        { c with queue := { c.queue with consumer := .loadTail c.queue.data.head } } .dequeue stage
        []
  | dequeue {stage : Stage} {queue : SpscQueueSeqLock.State} (hfree : stage.Free)
      (hdequeue : SpscQueueSeqLock.step reqQueueCapacity c.queue .consumer = some queue)
      (hreturns : SpscQueueSeqLock.returns c.queue .consumer = []) :
      ServeMove c stage .dequeue { c with queue := queue } .dequeue stage []
  | gaveUp {stage : Stage} {queue : SpscQueueSeqLock.State} (hfree : stage.Free)
      (hdequeue : SpscQueueSeqLock.step reqQueueCapacity c.queue .consumer = some queue)
      (hreturns : SpscQueueSeqLock.returns c.queue .consumer = [.dequeue none]) :
      ServeMove c stage .dequeue { c with queue := queue } (.leave false) stage []
  | dequeued {bufferIndex : UInt32} {queue : SpscQueueSeqLock.State}
      (hdequeue : SpscQueueSeqLock.step reqQueueCapacity c.queue .consumer = some queue)
      (hreturns : SpscQueueSeqLock.returns c.queue .consumer = [.dequeue (some bufferIndex)]) :
      ServeMove c (.posted bufferIndex) .dequeue { c with queue := queue }
        (.transpose bufferIndex) (.taken bufferIndex) [.dequeued bufferIndex]
  | transpose {bufferIndex : UInt32} :
      ServeMove c (.taken bufferIndex) (.transpose bufferIndex) c .callWake
        (.transposed bufferIndex) [.transposed bufferIndex]
  | callWake {bufferIndex : UInt32} :
      ServeMove c (.transposed bufferIndex) .callWake
        { c with futex := c.futex.setPc .server .wakeExchange } .wake (.transposed bufferIndex) []
  | raise {bufferIndex : UInt32} (hthread : c.futex.pc .server = .wakeExchange) :
      ServeMove c (.transposed bufferIndex) .wake
        { c with futex := { c.futex with word := 1 }.setPc .server .wakeCall } .wake
        (.raised bufferIndex) [.raised]
  | wakeAll {stage : Stage} (hfree : stage.Free) (hthread : c.futex.pc .server = .wakeCall) :
      ServeMove c stage .wake
        { c with
          futex := { c.futex with pc := FutexSignaller.awaken ∘ c.futex.pc }.setPc .server .idle }
        (.leave true) stage []

theorem ServeMove.leads (h : ServeMove c stage work c' work' after events) :
    stage.Leads events after := by
  cases h with
  | dequeued | transpose | raise => exact Stage.leads_of_owed rfl
  | callDequeue | dequeue | gaveUp | callWake | wakeAll => exact Stage.Leads.refl _

theorem ServeMove.frame (h : ServeMove c stage work c' work' after events) :
    c'.main = c.main ∧ c'.k = c.k ∧ c'.requestRepetitions = c.requestRepetitions := by
  cases h <;> exact ⟨rfl, rfl, rfl⟩

/-- Only a posted request can be delivered. -/
theorem Client.At.posted_of_items (h : c.At stage work) {item : UInt32} {rest : List UInt32}
    (hitems : c.queue.data.items reqQueueCapacity = item :: rest)
    (hsettled : SpscQueueSeqLock.Settled reqQueueCapacity c.queue.data c.queue.producer) :
    stage = .posted item ∧ rest = [] := by
  have hstage := hitems.symm.trans h.items
  cases stage with
  | posted bufferIndex =>
      obtain ⟨rfl, hrest⟩ := List.cons.inj hstage
      exact ⟨rfl, hrest⟩
  | calling bufferIndex =>
      -- while its `Enqueue` is open, it is not the oldest item
      cases hpc : c.queue.producer with
      | closeSeq last =>
          have htwo := hsettled last hpc
          rw [hitems, hstage, hpc] at htwo
          simp [Stage.items, SpscQueueSeqLock.pending] at htwo
      | idle | loadTail | openSeq | storeSlot | storeHead =>
          rw [hpc] at hstage
          cases hstage
  | resting | taken | transposed | raised => cases hstage

theorem Client.At.serve_dequeue (h : c.At stage .dequeue)
    (hstep : c.serve .dequeue = some (c', work')) :
    ∃ after, ServeMove c stage .dequeue c' work' after (c.servingShows .dequeue) ∧
      c'.At after work' := by
  have hat := h
  obtain ⟨hqueue, hfutex, hitems, hword, hmain, hfree, -, hthread⟩ := h
  obtain ⟨queue, hdequeue, heq⟩ := Option.map_eq_some_iff.mp hstep
  cases heq
  have hinv := SpscQueueSeqLock.inv_step checkCapacity_reqQueueCapacity hqueue hdequeue
  obtain ⟨hproducer, hcases⟩ :=
    SpscQueueSeqLock.dequeue_step_cases checkCapacity_reqQueueCapacity hqueue hdequeue
  rw [← hproducer] at hmain hitems
  rcases hcases with ⟨hdata, hbusy, hreturns⟩ | ⟨hdata, hidle, hreturns⟩ |
    ⟨item, hpop, hidle, hreturns, hsettled⟩
  · rw [← hdata] at hitems
    simp only [servingShows, hreturns, FifoOp.dequeued_nil, List.map_nil]
    exact ⟨stage, .dequeue hfree hdequeue hreturns, hinv, hfutex, hitems, hword, hmain, hfree,
      hbusy, hthread⟩
  · rw [← hdata] at hitems
    simp only [servingShows, hreturns, FifoOp.dequeued_cons_none, FifoOp.dequeued_nil,
      List.map_nil]
    exact ⟨stage, .gaveUp hfree hdequeue hreturns, hinv, hfutex, hitems, hword, hmain, hfree,
      hidle, hthread⟩
  · obtain ⟨rfl, hrest⟩ := hat.posted_of_items hpop hsettled
    simp only [servingShows, hreturns, FifoOp.dequeued_cons_some, FifoOp.dequeued_nil,
      List.map_cons, List.map_nil]
    have hbefore : (Stage.posted item).Awaited item := rfl
    have hafter : (Stage.taken item).Awaited item := rfl
    exact ⟨.taken item, .dequeued hdequeue hreturns, hinv, hfutex, hrest, hword,
      hmain.of_awaited hbefore hafter, rfl, hidle, hthread⟩

/-- The word is zero when `Wake` is called, so it is set. -/
theorem Client.At.serve_wake (h : c.At stage .wake) (hstep : c.serve .wake = some (c', work')) :
    ∃ after, ServeMove c stage .wake c' work' after (c.servingShows .wake) ∧
      c'.At after work' := by
  obtain ⟨hqueue, hfutex, hitems, hword, hmain, hconsumer, hthread⟩ := h
  obtain ⟨futex, hwake, heq⟩ := Option.map_eq_some_iff.mp hstep
  cases heq
  have hinv := FutexSignaller.inv_step hfutex hwake
  have hwaking : c.futex.pc .server = .wakeExchange ∨ c.futex.pc .server = .wakeCall :=
    hthread.imp And.right And.right
  simp only [servingShows]
  rcases FutexSignaller.wake_run_cases hwaking hwake with ⟨hexchange, -, rfl, hsignals⟩ |
    ⟨hexchange, hset, -⟩ | ⟨hcall, rfl, hsignals⟩
  · obtain ⟨bufferIndex, rfl⟩ : ∃ bufferIndex, stage = .transposed bufferIndex := by
      rcases hthread with ⟨htransposed, -⟩ | ⟨-, hcall⟩
      · exact htransposed
      · cases hexchange.symm.trans hcall
    rw [hsignals, if_neg (by simp [FutexSignaller.setPc_pc])]
    refine ⟨.raised bufferIndex, .raise hexchange, hqueue, hinv, hitems, rfl, ?_, ?_⟩
    · have hbefore : (Stage.transposed bufferIndex).Awaited bufferIndex := rfl
      have hafter : (Stage.raised bufferIndex).Awaited bufferIndex := rfl
      simpa [FutexSignaller.setPc_pc] using hmain.of_awaited hbefore hafter
    · simp only [FutexSignaller.setPc_pc, if_true]
      exact ⟨hconsumer, Or.inr ⟨trivial, rfl⟩⟩
  · rcases hthread with ⟨⟨bufferIndex, rfl⟩, -⟩ | ⟨-, hcall⟩
    · exact absurd hword hset
    · cases hexchange.symm.trans hcall
  · have hfree : stage.Free := by
      rcases hthread with ⟨-, hexchange⟩ | ⟨hfree, -⟩
      · cases hcall.symm.trans hexchange
      · exact hfree
    rw [hsignals, if_pos (by simp [FutexSignaller.setPc_pc])]
    refine ⟨stage, .wakeAll hfree hcall, hqueue, hinv, hitems, hword, ?_, ?_⟩
    · simpa [FutexSignaller.setPc_pc] using hmain.awaken
    · simp only [FutexSignaller.setPc_pc, if_true]
      exact ⟨hfree, hconsumer, rfl⟩

theorem Client.At.serve (h : c.At stage work) (hstep : c.serve work = some (c', work')) :
    ∃ after, ServeMove c stage work c' work' after (c.servingShows work) ∧ c'.At after work' := by
  cases work with
  | callDequeue =>
      obtain ⟨hqueue, hfutex, hitems, hword, hmain, hfree, hconsumer, hthread⟩ := h
      obtain ⟨queue, hdequeue, heq⟩ := Option.map_eq_some_iff.mp hstep
      cases heq
      have hinv := SpscQueueSeqLock.inv_step checkCapacity_reqQueueCapacity hqueue hdequeue
      cases SpscQueueSeqLock.move_of_step hdequeue with
      | dequeue =>
          exact ⟨stage, .callDequeue hfree, hinv, hfutex, hitems, hword, hmain, hfree, by simp,
            hthread⟩
  | dequeue => exact h.serve_dequeue hstep
  | transpose bufferIndex =>
      obtain ⟨hqueue, hfutex, hitems, hword, hmain, rfl, hconsumer, hthread⟩ := h
      cases hstep
      have hbefore : (Stage.taken bufferIndex).Awaited bufferIndex := rfl
      have hafter : (Stage.transposed bufferIndex).Awaited bufferIndex := rfl
      exact ⟨.transposed bufferIndex, .transpose, hqueue, hfutex, hitems, hword,
        hmain.of_awaited hbefore hafter, ⟨bufferIndex, rfl⟩, hconsumer, hthread⟩
  | callWake =>
      obtain ⟨hqueue, hfutex, hitems, hword, hmain, ⟨bufferIndex, rfl⟩, hconsumer, hthread⟩ := h
      obtain ⟨futex, hwake, heq⟩ := Option.map_eq_some_iff.mp hstep
      cases heq
      have hinv := FutexSignaller.inv_step hfutex hwake
      cases FutexSignaller.move_of_step hwake with
      | wake =>
          refine ⟨.transposed bufferIndex, .callWake, hqueue, hinv, hitems, hword, ?_, hconsumer,
            Or.inl ⟨⟨bufferIndex, rfl⟩, ?_⟩⟩
          · simpa [FutexSignaller.setPc_pc] using hmain
          · simp [FutexSignaller.setPc_pc]
  | wake => exact h.serve_wake hstep
  | leave served => cases hstep

end MatrixTransposer.RequestCycle
