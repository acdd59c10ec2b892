import MatrixTransposer.Proof.RequestHistory
import MatrixTransposer.Proof.SeqLockDequeue

/-!
# Every request is answered

While the dispatcher copy has the client's bit it comes to the client's slot once in every lap. If
it calls `Dequeue` there while the client waits, the call finds the request, since the only process
that could disturb it is the waiting client itself; a call that had begun earlier may give up, and
then the next lap finds the request. So two laps are enough, and after them the client needs two
steps of its own.
-/

namespace MatrixTransposer.RequestCycle

open Lib ClientBankHandoff

variable {uninitialized : Int32} {s t : State} {pid repetition bufferIndex : UInt32}
  {slot : Fin maxClients} {c c' : Client} {work work' : WorkPc} {stage after : Stage}
  {events : List Event}

/-- The client is in `Wait`, or about to call it. -/
def Client.Waiting (c : Client) (repetition bufferIndex : UInt32) : Prop :=
  c.main = .callWait repetition bufferIndex ∨ c.main = .wait repetition bufferIndex

/-- `AddClient` for this client has returned true, and `RemoveClient` has not got to clearing its
bit. -/
structure Subscribed (pid : UInt32) (slot : Fin maxClients) (s : State) : Prop where
  bit : getBit s.server.workspace.validClientsBitSet slot = true
  id : (s.server.workspace.clientBank slot).id = pid
  announced : s.server.handler ≠ .setFlag slot true

theorem Subscribed.dispatcher {times : Option (UInt64 × UInt64)} (h : Subscribed pid slot s)
    (hstep : step uninitialized s (.server (.dispatcher times)) = some t) :
    Subscribed pid slot t := by
  obtain ⟨hbit, hid, hannounced⟩ := h
  cases move_of_step hstep with
  | serve => exact ⟨hbit, hid, hannounced⟩
  | leave huse hleave hdispatcher =>
      obtain ⟨stats, rfl⟩ := (dispatcherMove_of_step hdispatcher).eq_of_use huse
      exact ⟨hbit, id_serve.trans hid, hannounced⟩
  | scan huse hdispatcher =>
      cases dispatcherMove_of_step hdispatcher with
      | leave hpc => exact absurd hpc (huse _)
      | again | exit | seen | unseen | take | clear | enter | skip | wrap =>
          exact ⟨hbit, hid, hannounced⟩
  | handle ha => exact absurd rfl (ha times)

def Action.isDispatcher : Action → Bool
  | .server (.dispatcher _) => true
  | _ => false

theorem Action.eq_dispatcher {a : Action} (h : a.isDispatcher = true) :
    ∃ times, a = .server (.dispatcher times) := by
  cases a with
  | client | interrupt => cases h
  | server a =>
      cases a with
      | dispatcher times => exact ⟨times, rfl⟩
      | add | remove | handler | stop => cases h

/-! ## Nobody is stuck -/

theorem at_of_reachable (h : (machine uninitialized).Reachable s) (pid : UInt32) :
    ∃ stage, (s.clients pid).At stage (s.workOn pid) := by
  obtain ⟨s₀, acts, hinit, hrun⟩ := h
  obtain ⟨stage, hat, -⟩ := clientInv_of_exec hinit hrun pid
  exact ⟨stage, hat⟩

theorem Client.At.step_isSome (h : c.At stage work) (hdone : c.main ≠ .done)
    (hasleep : c.futex.pc .client ≠ .asleep) : c.step.isSome = true := by
  have hmain := h.main
  cases hpc : c.main with
  | loop repetition bufferIndex =>
      rw [hpc] at hmain
      simp only [Client.step, hpc, SpscQueueSeqLock.step, if_pos hmain.2.1]
      split
      · split <;> rfl
      · rfl
  | enqueue repetition bufferIndex =>
      rw [hpc] at hmain
      simp only [Client.step, hpc, SpscQueueSeqLock.step, Option.isSome_map]
      cases hproducer : c.queue.producer with
      | idle =>
          rw [hproducer] at hmain
          cases hmain.2.1
      | loadTail item head nextHead =>
          simp only [SpscQueueSeqLock.enqueueStep]
          split <;> rfl
      | openSeq | storeSlot | storeHead | closeSeq => rfl
  | callWait repetition bufferIndex =>
      rw [hpc] at hmain
      simp only [Client.step, hpc, FutexSignaller.step, if_pos hmain.2.2]
      rfl
  | wait repetition bufferIndex =>
      rw [hpc] at hmain
      simp only [Client.step, hpc, Option.isSome_map]
      rcases hmain.2.2 with hthread | hthread | hthread
      · simp only [FutexSignaller.step, hthread]
        split <;> rfl
      · simp only [FutexSignaller.step, hthread]
        split <;> rfl
      · exact absurd hthread hasleep
  | done => exact absurd hpc hdone

theorem Client.At.serve_isSome (h : c.At stage work) (hleave : ∀ served, work ≠ .leave served) :
    (c.serve work).isSome = true := by
  have hwork := h.work
  cases work with
  | callDequeue =>
      simp only [Client.serve, SpscQueueSeqLock.step, if_pos hwork.2.1]
      rfl
  | dequeue =>
      simp only [Client.serve, SpscQueueSeqLock.step, Option.isSome_map]
      cases hconsumer : c.queue.consumer with
      | idle => exact absurd hconsumer hwork.2.1
      | loadTail | loadSeqStart | loadSeqEnd =>
          simp only [SpscQueueSeqLock.dequeueStep]
          split <;> rfl
      | loadSlot | storeTail => rfl
  | transpose => rfl
  | callWake =>
      simp only [Client.serve, FutexSignaller.step, if_pos hwork.2.2]
      rfl
  | wake =>
      simp only [Client.serve, Option.isSome_map]
      rcases hwork.2 with ⟨-, hthread⟩ | ⟨-, hthread⟩
      · simp only [FutexSignaller.step, hthread]
        split <;> rfl
      · simp only [FutexSignaller.step, hthread]
        rfl
  | leave served => exact absurd rfl (hleave served)

theorem dispatcherStep_isSome (h : (machine uninitialized).Reachable s)
    (hexited : s.server.dispatcher ≠ .exited) :
    ∃ times, (dispatcherStep s times).isSome = true := by
  have hserver := serverInv_of_reachable h
  cases hpc : s.server.dispatcher with
  | use slot =>
      have hcopy := hserver.flag.2
      rw [hpc] at hcopy
      obtain ⟨req, hcomplete⟩ := hserver.bank.copy_built slot hcopy
      cases hwork : s.work with
      | leave served =>
          cases served with
          | false =>
              exact ⟨none, by simp [dispatcherStep, ClientBankHandoff.dispatcherStep, hpc, hwork]⟩
          | true =>
              exact ⟨some (0, 0),
                by simp [dispatcherStep, ClientBankHandoff.dispatcherStep, hpc, hwork]⟩
      | callDequeue | dequeue | transpose | callWake | wake =>
          obtain ⟨stage, hat⟩ := at_of_reachable h req.clientId
          have hon : s.workOn req.clientId = s.work := by
            rw [← hcomplete.id]
            exact workOn_of_use hpc
          rw [hon] at hat
          have henabled := hat.serve_isSome (by simp [hwork])
          rw [hwork] at henabled
          refine ⟨none, ?_⟩
          simp only [dispatcherStep, hpc, hwork, WorkPc.clientPid, hcomplete.id,
            hcomplete.pRequestQueue, hcomplete.pTransposeReadyFutex, Option.map_some,
            Option.bind_some, Option.isSome_map]
          exact henabled
  | exited => exact absurd hpc hexited
  | loop | loadFlag | loadBits | clearFlag =>
      exact ⟨none, by simp [dispatcherStep, ClientBankHandoff.dispatcherStep, hpc]⟩
  | scan i =>
      refine ⟨none, ?_⟩
      simp only [dispatcherStep, ClientBankHandoff.dispatcherStep, hpc, Option.isSome_map]
      split
      · split <;> rfl
      · rfl

/-! ## Laps of the dispatcher -/

/-- How many steps the dispatcher makes at most before it leaves the slot. -/
def Client.workLeft (c : Client) : WorkPc → Nat
  | .callDequeue => 11
  | .dequeue =>
      match c.queue.consumer with
      | .loadTail _ => 10
      | .loadSeqStart _ => 9
      | .loadSlot _ _ => 8
      | .loadSeqEnd _ _ _ => 7
      | _ => 6
  | .transpose _ => 5
  | .callWake => 4
  | .wake => if c.futex.pc .server = .wakeExchange then 3 else 2
  | .leave _ => 1

/-- How many steps the dispatcher makes at most from here to the end of its `for` loop. -/
def scanLeft (i : Nat) : Nat := 12 * (maxClients - i)

def lapLeft (s : State) : Nat :=
  match s.server.dispatcher with
  | .loop => scanLeft 0 + 4
  | .loadFlag => scanLeft 0 + 3
  | .loadBits => scanLeft 0 + 2
  | .clearFlag => scanLeft 0 + 1
  | .scan i => scanLeft i
  | .use slot =>
      scanLeft (slot.val + 1) +
        (s.clients (s.server.workspace.clientBank slot).id).workLeft s.work
  | .exited => 0

def lap : Nat := scanLeft 0 + 5

theorem Client.workLeft_dequeue {queue : SpscQueueSeqLock.State}
    (hdequeue : SpscQueueSeqLock.step reqQueueCapacity c.queue .consumer = some queue) :
    ({ c with queue := queue } : Client).workLeft
        (afterDequeue (SpscQueueSeqLock.returns c.queue .consumer)) + 1 ≤ c.workLeft .dequeue := by
  cases SpscQueueSeqLock.move_of_step hdequeue with
  | empty hpc hseen | occupied hpc hseen | odd hpc hseen | even hpc hseen | unmoved hpc hseen
  | moved hpc hseen => simp [workLeft, afterDequeue, SpscQueueSeqLock.returns, hpc, hseen]
  | loadSlot hpc | storeTail hpc =>
      simp [workLeft, afterDequeue, SpscQueueSeqLock.returns, hpc]

theorem ServeMove.workLeft (h : ServeMove c stage work c' work' after events) :
    c'.workLeft work' + 1 ≤ c.workLeft work := by
  cases h with
  | dequeue _ hdequeue hreturns | gaveUp _ hdequeue hreturns | dequeued hdequeue hreturns =>
      have hless := Client.workLeft_dequeue hdequeue
      rwa [hreturns] at hless
  | callDequeue | transpose => simp [Client.workLeft]
  | callWake =>
      simp only [Client.workLeft]
      split <;> omega
  | raise hthread | wakeAll _ hthread => simp [Client.workLeft, hthread, FutexSignaller.setPc_pc]

/-- A dispatcher's step shortens the lap, or begins a new one. -/
theorem lapLeft_dispatcher {times : Option (UInt64 × UInt64)}
    (h : (machine uninitialized).Reachable s)
    (hstep : step uninitialized s (.server (.dispatcher times)) = some t) :
    lapLeft t + 1 ≤ lapLeft s ∨
      t.server.dispatcher = .loop ∧ ∃ i, maxClients ≤ i ∧ s.server.dispatcher = .scan i := by
  have hserver := serverInv_of_reachable h
  cases move_of_step hstep with
  | @serve _ slot p c work huse hpid hserve =>
      left
      have hp := hserver.pid_eq huse hpid
      obtain ⟨stage, hat⟩ := at_of_reachable h p
      rw [show s.workOn p = s.work from hp ▸ workOn_of_use huse] at hat
      obtain ⟨after, hmove, -⟩ := hat.serve hserve
      have hless := hmove.workLeft
      simp only [lapLeft, State.setClient, huse, ← hp, Function.update_self]
      omega
  | @leave _ slot served server huse hleave hdispatcher =>
      left
      obtain ⟨stats, rfl⟩ := (dispatcherMove_of_step hdispatcher).eq_of_use huse
      simp [lapLeft, huse, hleave, Client.workLeft]
  | @scan _ server huse hdispatcher =>
      cases dispatcherMove_of_step hdispatcher with
      | again hpc | exit hpc | seen hpc | unseen hpc | take hpc | clear hpc =>
          left
          simp [lapLeft, hpc]
      | @enter slot hpc =>
          left
          have hslot := slot.isLt
          simp only [lapLeft, hpc, scanLeft, hserver.work huse, Client.workLeft]
          omega
      | skip hpc hi =>
          left
          simp only [lapLeft, hpc, scanLeft]
          omega
      | wrap hpc hi => exact Or.inr ⟨rfl, _, hi, hpc⟩
      | leave hpc => exact absurd hpc (huse _)
  | handle ha => exact absurd rfl (ha times)

/-! ## What does not move the dispatcher -/

/-- While the client waits its steps leave the queue alone, and the word too until it returns. -/
theorem MainMove.waiting (h : MainMove c stage c' after events)
    (hwait : c.Waiting repetition bufferIndex) :
    c'.queue = c.queue ∧
      (c'.main = .loop repetition (bufferIndex + 1) ∨
        c'.Waiting repetition bufferIndex ∧ c'.futex.word = c.futex.word) := by
  unfold Client.Waiting at hwait
  cases h with
  | call hpc | next hpc | finish hpc | enqueue hpc | enqueued hpc =>
      rw [hpc] at hwait
      simp at hwait
  | callWait hpc =>
      simp only [hpc, MainPc.callWait.injEq, reduceCtorEq, or_false] at hwait
      obtain ⟨rfl, rfl⟩ := hwait
      exact ⟨rfl, Or.inr ⟨Or.inr rfl, rfl⟩⟩
  | wait => exact ⟨rfl, Or.inr ⟨hwait, rfl⟩⟩
  | waited hpc =>
      simp only [hpc, MainPc.wait.injEq, reduceCtorEq, false_or] at hwait
      obtain ⟨rfl, rfl⟩ := hwait
      exact ⟨rfl, Or.inl rfl⟩

theorem Client.workLeft_congr (hconsumer : c'.queue.consumer = c.queue.consumer)
    (hthread : c'.futex.pc .server = c.futex.pc .server) (work : WorkPc) :
    c'.workLeft work = c.workLeft work := by
  cases work <;> simp only [Client.workLeft, hconsumer, hthread]

theorem lapLeft_setClient {p : UInt32} (hconsumer : c.queue.consumer = (s.clients p).queue.consumer)
    (hthread : c.futex.pc .server = (s.clients p).futex.pc .server) :
    lapLeft (s.setClient p c) = lapLeft s := by
  have hwork : ∀ id, ((s.setClient p c).clients id).workLeft s.work =
      (s.clients id).workLeft s.work := by
    intro id
    by_cases heq : id = p
    · subst heq
      rw [setClient_clients_self]
      exact Client.workLeft_congr hconsumer hthread s.work
    · rw [setClient_clients_of_ne s heq]
  unfold lapLeft
  cases hpc : s.server.dispatcher with
  | use slot =>
      simp only [State.setClient] at hwork ⊢
      simp only [hpc, hwork]
  | loop | loadFlag | loadBits | clearFlag | scan | exited => simp only [State.setClient, hpc]

theorem lapLeft_other {a : Action} (h : (machine uninitialized).Reachable s)
    (ha : a.isDispatcher = false) (hstep : step uninitialized s a = some t) :
    lapLeft t = lapLeft s := by
  have hserver := serverInv_of_reachable h
  cases move_of_step hstep with
  | @client p c hclient =>
      obtain ⟨stage, hat⟩ := at_of_reachable h p
      obtain ⟨after, hmove, -⟩ := hat.step hclient
      exact lapLeft_setClient hmove.frame.1 hmove.frame.2
  | @interrupt p futex hinterrupt =>
      apply lapLeft_setClient
      · rfl
      · cases FutexSignaller.move_of_step hinterrupt with
        | interrupt => simp [FutexSignaller.setPc_pc]
  | serve | leave | scan => cases ha
  | @handle a server hother hhandle =>
      simp only [lapLeft, (dispatcher_of_handle hother hhandle).1]
      cases hpc : s.server.dispatcher with
      | use slot =>
          have hcopy := hserver.flag.2
          rw [hpc] at hcopy
          simp only [hserver.clientBank_of_handle hother hhandle (Or.inl hcopy)]
      | loop | loadFlag | loadBits | clearFlag | scan | exited => rfl

/-! ## On course for a client -/

/-- The work on the client will find the request, or has found it. -/
def Client.Taking (c : Client) : WorkPc → Prop
  | .dequeue =>
      ∃ k ≤ 4, c.queue.consumer =
        SpscQueueSeqLock.undisturbedPc reqQueueCapacity c.queue.data k
  | .wake => c.futex.pc .server = .wakeExchange ∨ c.futex.word = 1
  | .leave _ => False
  | _ => True

/-- The dispatcher comes to the client's slot in this lap, and will take the request there. -/
def OnCourse (pid : UInt32) (slot : Fin maxClients) (s : State) : Prop :=
  match s.server.dispatcher with
  | .scan i => i ≤ slot.val ∧ getBit s.server.localValidClientsBitSet slot = true
  | .use j =>
      j < slot ∧ getBit s.server.localValidClientsBitSet slot = true ∨
        j = slot ∧ (s.clients pid).Taking s.work
  | _ => True

/-- The signal is up and the dispatcher has made its `FUTEX_WAKE`. -/
def Woken (pid : UInt32) (s : State) : Prop :=
  (s.clients pid).futex.word = 1 ∧ s.workOn pid ≠ .wake

/-- An announced update reaches the dispatcher, and one that is not announced has reached it. -/
theorem Subscribed.flag_or_copy (h : Subscribed pid slot s) (hserver : ServerInv s) :
    s.server.workspace.clientBankUpdateAvailable = true ∨
      getBit s.server.localValidClientsBitSet slot = true := by
  have hhandler := hserver.flag.1
  have hbit := h.bit
  cases hflag : s.server.workspace.clientBankUpdateAvailable with
  | true => exact Or.inl rfl
  | false =>
      right
      by_cases hpublished : ∃ j value, s.server.handler = .setFlag j value
      · obtain ⟨j, value, hpc⟩ := hpublished
        have hother : slot.val ≠ j.val := by
          intro heq
          have hslot : slot = j := Fin.ext heq
          subst hslot
          rw [hpc] at hhandler
          rw [hhandler.2, getBit_setBit _ slot.isLt slot.isLt, if_pos rfl] at hbit
          exact h.announced (hbit ▸ hpc)
        rw [hpc] at hhandler
        rwa [hhandler.2, getBit_setBit _ j.isLt slot.isLt, if_neg hother] at hbit
      · rw [copy_eq_of_flag hhandler hflag fun j value hpc => hpublished ⟨j, value, hpc⟩]
        exact hbit

theorem Client.At.of_waiting (h : c.At stage work) (hwait : c.Waiting repetition bufferIndex) :
    stage.Awaited bufferIndex ∧ c.queue.producer = .idle := by
  have hmain := h.main
  rcases hwait with hpc | hpc
  · rw [hpc] at hmain
    exact ⟨hmain.1, hmain.2.1⟩
  · rw [hpc] at hmain
    exact ⟨hmain.1, hmain.2.1⟩

/-- While the client waits for a request that is in the queue, `Dequeue` runs undisturbed. -/
theorem Client.At.taking_dequeue (h : c.At stage .dequeue)
    (hwait : c.Waiting repetition bufferIndex) (hword : c.futex.word ≠ 1)
    (htaking : c.Taking .dequeue) {queue : SpscQueueSeqLock.State}
    (hdequeue : SpscQueueSeqLock.step reqQueueCapacity c.queue .consumer = some queue) :
    ({ c with queue := queue } : Client).Taking
      (afterDequeue (SpscQueueSeqLock.returns c.queue .consumer)) := by
  obtain ⟨hawaited, hproducer⟩ := h.of_waiting hwait
  obtain ⟨hfree, -, -⟩ := h.work
  have hitems : c.queue.data.items reqQueueCapacity = [bufferIndex] := by
    rw [h.items]
    cases stage with
    | posted b => exact congrArg (fun b => [b]) hawaited
    | raised b => exact absurd h.word hword
    | resting | calling => exact hawaited.elim
    | taken | transposed => exact hfree.elim
  have hne : c.queue.data.tail ≠ c.queue.data.head := by
    intro heq
    rw [(QueueSlots.items_eq_nil_iff h.queue.bounded).mpr heq] at hitems
    cases hitems
  have heven : c.queue.data.seq % 2 = 0 := by
    rw [SpscQueueSeqLock.seq_mod_two, h.queue.parity, hproducer]
    rfl
  obtain ⟨k, hk, hpc⟩ := htaking
  by_cases hlast : k = 4
  · subst hlast
    rw [(SpscQueueSeqLock.undisturbed_return hpc hdequeue).2]
    trivial
  · obtain ⟨hdata, hpc', hreturns⟩ :=
      SpscQueueSeqLock.undisturbed_advance (by omega) heven hne hpc hdequeue
    rw [hreturns]
    exact ⟨k + 1, by omega, by rw [hpc', hdata]⟩

/-- Work that is to take the request goes on so until the client is woken. -/
theorem ServeMove.taking (hmove : ServeMove c stage work c' work' after events)
    (h : c.At stage work) (hwait : c.Waiting repetition bufferIndex)
    (hword : c.futex.word = 1 → work = .wake) (htaking : c.Taking work) :
    c'.Taking work' ∨ c'.futex.word = 1 ∧ work' ≠ .wake := by
  cases hmove with
  | callDequeue => exact Or.inl ⟨0, by omega, rfl⟩
  | dequeue _ hdequeue hreturns | gaveUp _ hdequeue hreturns | dequeued hdequeue hreturns =>
      left
      have hzero : c.futex.word ≠ 1 := fun hone => by cases hword hone
      have htaking' := h.taking_dequeue hwait hzero htaking hdequeue
      rwa [hreturns] at htaking'
  | transpose => exact Or.inl trivial
  | callWake | raise =>
      left
      simp [Client.Taking, FutexSignaller.setPc_pc]
  | wakeAll _ hthread =>
      right
      simp only [Client.Taking, hthread, reduceCtorEq, false_or] at htaking
      exact ⟨htaking, by simp⟩

/-- The dispatcher's search for the slot passes over no subscribed client. -/
theorem onCourse_scan {server : ClientBankHandoff.State} (hserver : ServerInv s)
    (hsubscribed : Subscribed pid slot s) (hcourse : OnCourse pid slot s)
    (huse : ∀ j, s.server.dispatcher ≠ .use j) (hmove : DispatcherMove s.server server) :
    OnCourse pid slot { s with server := server } := by
  have hfacts := hserver.flag.2
  unfold OnCourse at hcourse
  cases hmove with
  | again | exit | seen | take | wrap => trivial
  | unseen hpc hclear =>
      rcases hsubscribed.flag_or_copy hserver with hset | hbit
      · rw [hclear] at hset
        cases hset
      · exact ⟨Nat.zero_le _, hbit⟩
  | clear hpc =>
      rw [hpc] at hfacts
      have hbit := hsubscribed.bit
      rw [← hfacts.2] at hbit
      exact ⟨Nat.zero_le _, hbit⟩
  | @enter j hpc =>
      rw [hpc] at hcourse
      obtain ⟨hle, hbit⟩ := hcourse
      simp only [OnCourse, hserver.work huse]
      rcases Nat.lt_or_eq_of_le hle with hlt | heq
      · exact Or.inl ⟨hlt, hbit⟩
      · exact Or.inr ⟨Fin.ext heq, trivial⟩
  | @skip i hpc hi hclear =>
      rw [hpc] at hcourse
      obtain ⟨hle, hbit⟩ := hcourse
      have hne : i ≠ slot.val := by
        rintro rfl
        rw [hbit] at hclear
        cases hclear
      exact ⟨Nat.lt_of_le_of_ne hle hne, hbit⟩
  | leave hpc => exact absurd hpc (huse _)

/-- A dispatcher that is on course stays so until the client is woken. -/
theorem onCourse_dispatcher {times : Option (UInt64 × UInt64)}
    (h : (machine uninitialized).Reachable s) (hsubscribed : Subscribed pid slot s)
    (hwait : (s.clients pid).Waiting repetition bufferIndex) (hwoken : ¬ Woken pid s)
    (hcourse : OnCourse pid slot s)
    (hstep : step uninitialized s (.server (.dispatcher times)) = some t) :
    OnCourse pid slot t ∨ Woken pid t := by
  have hserver := serverInv_of_reachable h
  cases move_of_step hstep with
  | @serve _ j p c work huse hpid hserve =>
      have hp := hserver.pid_eq huse hpid
      simp only [OnCourse, huse] at hcourse
      rcases hcourse with hbefore | ⟨rfl, htaking⟩
      · left
        simp only [OnCourse, State.setClient, huse]
        exact Or.inl hbefore
      · rw [hsubscribed.id] at hp
        subst hp
        obtain ⟨stage, hat⟩ := at_of_reachable h p
        have hon : s.workOn p = s.work := by
          rw [← hsubscribed.id]
          exact workOn_of_use huse
        have hword : (s.clients p).futex.word = 1 → s.work = .wake := by
          intro hone
          by_contra hne
          exact hwoken ⟨hone, hon ▸ hne⟩
        rw [hon] at hat
        obtain ⟨after, hmove, -⟩ := hat.serve hserve
        rcases hmove.taking hat hwait hword htaking with htaking' | ⟨hone, hne⟩
        · left
          simp only [OnCourse, State.setClient, huse, Function.update_self]
          exact Or.inr ⟨trivial, htaking'⟩
        · right
          refine ⟨?_, ?_⟩
          · simp only [State.setClient, Function.update_self]
            exact hone
          · simpa [State.workOn, State.setClient, huse, hsubscribed.id] using hne
  | @leave _ j served server huse hleave hdispatcher =>
      left
      simp only [OnCourse, huse, hleave] at hcourse
      obtain ⟨stats, rfl⟩ := (dispatcherMove_of_step hdispatcher).eq_of_use huse
      rcases hcourse with ⟨hlt, hbit⟩ | ⟨-, htaking⟩
      · exact ⟨hlt, hbit⟩
      · exact htaking.elim
  | scan huse hdispatcher =>
      left
      exact onCourse_scan hserver hsubscribed hcourse huse (dispatcherMove_of_step hdispatcher)
  | handle ha => exact absurd rfl (ha times)

theorem Client.Taking.congr (h : c.Taking work) (hqueue : c'.queue = c.queue)
    (hthread : c'.futex.pc .server = c.futex.pc .server) (hword : c'.futex.word = c.futex.word) :
    c'.Taking work := by
  cases work with
  | dequeue =>
      obtain ⟨k, hk, hpc⟩ := h
      exact ⟨k, hk, by rw [hqueue, hpc]⟩
  | wake =>
      rw [Client.Taking, hthread, hword]
      exact h
  | callDequeue | transpose | callWake => trivial
  | leave => exact h.elim

theorem MainMove.keeps_taking (h : MainMove c stage c' after events)
    (hwait : c.Waiting repetition bufferIndex) (hwait' : c'.Waiting repetition bufferIndex)
    (htaking : c.Taking work) : c'.Taking work := by
  obtain ⟨hqueue, hloop | ⟨-, hword⟩⟩ := h.waiting hwait
  · unfold Client.Waiting at hwait'
    rw [hloop] at hwait'
    simp at hwait'
  · exact htaking.congr hqueue h.frame.2 hword

theorem Client.Taking.interrupt (h : c.Taking work) {futex : FutexSignaller.State Party}
    (hstep : FutexSignaller.step c.futex (.interrupt .client) = some futex) :
    ({ c with futex := futex } : Client).Taking work := by
  cases FutexSignaller.move_of_step hstep with
  | interrupt =>
      apply h.congr rfl
      · simp
      · rfl

theorem taking_setClient {p : UInt32} {c : Client}
    (hkeep : p = pid → (s.clients pid).Taking work → c.Taking work)
    (h : (s.clients pid).Taking work) : ((s.setClient p c).clients pid).Taking work := by
  by_cases heq : pid = p
  · subst heq
    rw [setClient_clients_self]
    exact hkeep rfl h
  · rwa [setClient_clients_of_ne s heq]

/-- No other step takes it off its course, unless the client returns from `Wait`. -/
theorem onCourse_other {a : Action} (h : (machine uninitialized).Reachable s)
    (hwait : (s.clients pid).Waiting repetition bufferIndex)
    (hwait' : (t.clients pid).Waiting repetition bufferIndex)
    (hcourse : OnCourse pid slot s) (ha : a.isDispatcher = false)
    (hstep : step uninitialized s a = some t) : OnCourse pid slot t := by
  obtain ⟨hdispatcher, hcopy, hwork, htaking⟩ :
      t.server.dispatcher = s.server.dispatcher ∧
        t.server.localValidClientsBitSet = s.server.localValidClientsBitSet ∧ t.work = s.work ∧
        ((s.clients pid).Taking s.work → (t.clients pid).Taking s.work) := by
    cases move_of_step hstep with
    | @client p c hclient =>
        refine ⟨rfl, rfl, rfl, taking_setClient ?_⟩
        rintro rfl htaking
        obtain ⟨stage, hat⟩ := at_of_reachable h p
        obtain ⟨after, hmove, -⟩ := hat.step hclient
        rw [setClient_clients_self] at hwait'
        exact hmove.keeps_taking hwait hwait' htaking
    | @interrupt p futex hinterrupt =>
        refine ⟨rfl, rfl, rfl, taking_setClient ?_⟩
        rintro rfl htaking
        exact htaking.interrupt hinterrupt
    | serve | leave | scan => cases ha
    | handle hother hhandle =>
        obtain ⟨hdispatcher, hcopy⟩ := dispatcher_of_handle hother hhandle
        exact ⟨hdispatcher, hcopy, rfl, id⟩
  unfold OnCourse at hcourse ⊢
  rw [hdispatcher, hcopy, hwork]
  cases hpc : s.server.dispatcher with
  | use j =>
      rw [hpc] at hcourse
      exact hcourse.imp_right fun hslot => ⟨hslot.1, htaking hslot.2⟩
  | loop | loadFlag | loadBits | clearFlag | scan | exited =>
      rw [hpc] at hcourse
      exact hcourse

/-! ## Up to the wake-up -/

/-- While the client waits and is not woken, the dispatcher stays on course for it. -/
theorem onCourse_step {a : Action} (h : (machine uninitialized).Reachable s)
    (hsubscribed : Subscribed pid slot s) (hwait : (s.clients pid).Waiting repetition bufferIndex)
    (hwait' : (t.clients pid).Waiting repetition bufferIndex) (hwoken : ¬ Woken pid s)
    (hwoken' : ¬ Woken pid t) (hcourse : OnCourse pid slot s)
    (hstep : step uninitialized s a = some t) : OnCourse pid slot t := by
  cases ha : a.isDispatcher with
  | true =>
      obtain ⟨times, rfl⟩ := Action.eq_dispatcher ha
      exact (onCourse_dispatcher h hsubscribed hwait hwoken hcourse hstep).resolve_right hwoken'
  | false => exact onCourse_other h hwait hwait' hcourse ha hstep

theorem LocalMove.waiting {own : Bool} (h : LocalMove c stage work own c' after work' events)
    (hwait : c.Waiting repetition bufferIndex) :
    c'.main = .loop repetition (bufferIndex + 1) ∨ c'.Waiting repetition bufferIndex := by
  cases h with
  | main hmove => exact (hmove.waiting hwait).2.imp_right And.left
  | serve hmove =>
      right
      rw [Client.Waiting, hmove.frame.1]
      exact hwait
  | interrupt | leave | other => exact Or.inr hwait

theorem Client.workLeft_le (c : Client) (work : WorkPc) : c.workLeft work ≤ 11 := by
  cases work with
  | dequeue =>
      simp only [workLeft]
      split <;> omega
  | wake =>
      simp only [workLeft]
      split <;> omega
  | callDequeue | transpose | callWake | leave => simp [workLeft]

theorem lapLeft_lt_lap (s : State) : lapLeft s < lap := by
  unfold lapLeft lap scanLeft
  cases hpc : s.server.dispatcher with
  | use j =>
      have hwork := (s.clients (s.server.workspace.clientBank j).id).workLeft_le s.work
      simp only
      omega
  | loop | loadFlag | loadBits | clearFlag | scan | exited =>
      simp only
      omega

/-- The client waits and has still to be woken, which takes at most `n` steps of the dispatcher. -/
structure Underway (uninitialized : Int32) (pid : UInt32) (slot : Fin maxClients)
    (repetition bufferIndex : UInt32) (s : State) (n : Nat) : Prop where
  reachable : (machine uninitialized).Reachable s
  waiting : (s.clients pid).Waiting repetition bufferIndex
  not_woken : ¬ Woken pid s
  budget : OnCourse pid slot s ∧ lapLeft s ≤ n ∨ lapLeft s + lap ≤ n

theorem underway_step {a : Action} {n : Nat} (hsubscribed : Subscribed pid slot s)
    (h : Underway uninitialized pid slot repetition bufferIndex s n)
    (hstep : step uninitialized s a = some t) :
    ((t.clients pid).main = .loop repetition (bufferIndex + 1) ∨
        (t.clients pid).Waiting repetition bufferIndex ∧ Woken pid t) ∨
      ∃ m, Underway uninitialized pid slot repetition bufferIndex t m ∧
        m + (if a.isDispatcher then 1 else 0) ≤ n := by
  obtain ⟨hreach, hwait, hwoken, hbudget⟩ := h
  have hreach' : (machine uninitialized).Reachable t := hreach.step hstep
  obtain ⟨stage, hat⟩ := at_of_reachable hreach pid
  obtain ⟨after, hmove, -⟩ := localStep_of_step (serverInv_of_reachable hreach) hat hstep
  rcases hmove.waiting hwait with hloop | hwait'
  · exact Or.inl (Or.inl hloop)
  by_cases hwoken' : Woken pid t
  · exact Or.inl (Or.inr ⟨hwait', hwoken'⟩)
  right
  have hkeeps : OnCourse pid slot s → OnCourse pid slot t := fun hcourse =>
    onCourse_step hreach hsubscribed hwait hwait' hwoken hwoken' hcourse hstep
  cases ha : a.isDispatcher with
  | false =>
      have hlap := lapLeft_other hreach ha hstep
      refine ⟨n, ⟨hreach', hwait', hwoken', ?_⟩, by simp⟩
      rw [hlap]
      exact hbudget.imp_left fun hcourse => ⟨hkeeps hcourse.1, hcourse.2⟩
  | true =>
      obtain ⟨times, rfl⟩ := Action.eq_dispatcher ha
      have hlap := lapLeft_dispatcher hreach hstep
      simp only [if_true]
      rcases hbudget with ⟨hcourse, hleft⟩ | hleft
      · -- the lap on which the request is taken
        rcases hlap with hless | ⟨-, i, hi, hpc⟩
        · have hcourse' := hkeeps hcourse
          exact ⟨lapLeft t, ⟨hreach', hwait', hwoken', Or.inl ⟨hcourse', le_rfl⟩⟩, by omega⟩
        · simp only [OnCourse, hpc] at hcourse
          have hslot := slot.isLt
          omega
      · rcases hlap with hless | ⟨hpc, -⟩
        · exact ⟨lapLeft t + lap, ⟨hreach', hwait', hwoken', Or.inr le_rfl⟩, by omega⟩
        · -- the next lap begins on course
          have hcourse' : OnCourse pid slot t := by
            simp [OnCourse, hpc]
          have hlt := lapLeft_lt_lap t
          exact ⟨lapLeft t, ⟨hreach', hwait', hwoken', Or.inl ⟨hcourse', le_rfl⟩⟩, by omega⟩

/-! ## From the wake-up to the return -/

/-- How many steps the client makes at most before `Wait` returns, once the signal is up. -/
def Client.returnLeft (c : Client) : Nat :=
  if c.futex.pc .client = .waitExchange then 1 else 2

theorem Client.At.not_asleep (h : c.At stage work) (hone : c.futex.word = 1)
    (hwork : work ≠ .wake) : c.futex.pc .client ≠ .asleep := by
  intro hasleep
  obtain ⟨waker, hwaker⟩ := h.futex.awaited .client hasleep hone
  cases waker with
  | client =>
      rw [hasleep] at hwaker
      cases hwaker
  | server =>
      have hserver := h.work
      cases work with
      | wake => exact hwork rfl
      | callDequeue | leave | dequeue | transpose | callWake =>
          obtain ⟨-, -, hidle⟩ := hserver
          rw [hwaker] at hidle
          cases hidle

/-- Once the signal is up, the client's step returns or is the last but one. -/
theorem MainMove.woken (h : MainMove c stage c' after events)
    (hwait : c.Waiting repetition bufferIndex) (hone : c.futex.word = 1) :
    c'.main = .loop repetition (bufferIndex + 1) ∨
      c'.Waiting repetition bufferIndex ∧ c'.futex.word = 1 ∧
        c'.returnLeft + 1 ≤ c.returnLeft := by
  obtain ⟨-, hloop | ⟨hwait', hword⟩⟩ := h.waiting hwait
  · exact Or.inl hloop
  refine Or.inr ⟨hwait', hword.trans hone, ?_⟩
  unfold Client.Waiting at hwait
  cases h with
  | call hpc | next hpc | finish hpc | enqueue hpc | enqueued hpc =>
      rw [hpc] at hwait
      simp at hwait
  | callWait _ hthread => simp [Client.returnLeft, FutexSignaller.setPc_pc, hthread]
  | wait _ hthread =>
      -- with the signal up it does not fall asleep
      rcases hthread with ⟨-, hclear, -⟩ | ⟨-, hzero, -⟩ | ⟨hcall, -, rfl⟩
      · exact absurd hone hclear
      · rw [hone] at hzero
        cases hzero
      · simp [Client.returnLeft, FutexSignaller.setPc_pc, hcall]
  | waited => simp [Client.Waiting] at hwait'

theorem ServeMove.woken (hmove : ServeMove c stage work c' work' after events)
    (h : c.At stage work) (hone : c.futex.word = 1) (hwork : work ≠ .wake) :
    c'.futex = c.futex ∧ work' ≠ .wake := by
  obtain ⟨b, rfl⟩ := h.raised_of_word (by simp [hone])
  cases hmove with
  | callDequeue | dequeue | gaveUp => exact ⟨rfl, by simp⟩
  | wakeAll => exact absurd rfl hwork

/-- Once the client is woken, all that happens to it is that it returns. -/
theorem LocalMove.returning {own : Bool} (hmove : LocalMove c stage work own c' after work' events)
    (h : c.At stage work) (hwait : c.Waiting repetition bufferIndex) (hone : c.futex.word = 1)
    (hwork : work ≠ .wake) :
    c'.main = .loop repetition (bufferIndex + 1) ∨
      c'.Waiting repetition bufferIndex ∧ c'.futex.word = 1 ∧ work' ≠ .wake ∧
        c'.returnLeft + (if own then 1 else 0) ≤ c.returnLeft := by
  cases hmove with
  | main hmove =>
      rcases hmove.woken hwait hone with hloop | ⟨hwait', hone', hless⟩
      · exact Or.inl hloop
      · exact Or.inr ⟨hwait', hone', hwork, hless⟩
  | interrupt hstep =>
      cases FutexSignaller.move_of_step hstep with
      | interrupt hasleep => exact absurd hasleep (h.not_asleep hone hwork)
  | serve hmove =>
      right
      obtain ⟨hfutex, hwork'⟩ := hmove.woken h hone hwork
      refine ⟨?_, ?_, hwork', ?_⟩
      · rw [Client.Waiting, hmove.frame.1]
        exact hwait
      · rwa [hfutex]
      · simp [Client.returnLeft, hfutex]
  | leave => exact Or.inr ⟨hwait, hone, by simp, by simp⟩
  | other => exact Or.inr ⟨hwait, hone, hwork, by simp⟩

/-- The client has been woken and returns after at most `n` steps of its own. -/
structure Returning (uninitialized : Int32) (pid repetition bufferIndex : UInt32) (s : State)
    (n : Nat) : Prop where
  reachable : (machine uninitialized).Reachable s
  waiting : (s.clients pid).Waiting repetition bufferIndex
  woken : Woken pid s
  budget : (s.clients pid).returnLeft ≤ n

theorem returning_step {a : Action} {n : Nat}
    (h : Returning uninitialized pid repetition bufferIndex s n)
    (hstep : step uninitialized s a = some t) :
    (t.clients pid).main = .loop repetition (bufferIndex + 1) ∨
      ∃ m, Returning uninitialized pid repetition bufferIndex t m ∧
        m + (if a.isClient pid then 1 else 0) ≤ n := by
  obtain ⟨hreach, hwait, ⟨hone, hwork⟩, hbudget⟩ := h
  obtain ⟨stage, hat⟩ := at_of_reachable hreach pid
  obtain ⟨after, hmove, -⟩ := localStep_of_step (serverInv_of_reachable hreach) hat hstep
  rcases hmove.returning hat hwait hone hwork with hloop | ⟨hwait', hone', hwork', hless⟩
  · exact Or.inl hloop
  · exact Or.inr ⟨_, ⟨hreach.step hstep, hwait', ⟨hone', hwork'⟩, le_rfl⟩, hless.trans hbudget⟩

end MatrixTransposer.RequestCycle
