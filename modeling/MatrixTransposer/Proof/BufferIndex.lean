import MatrixTransposer.AnyClients
import MatrixTransposer.Lib.StepCondition
import MatrixTransposer.Proof.SeqLockDequeue
import MatrixTransposer.Proof.TransposeServer

/-!
# The index that a client sends

What `Dequeue` delivers goes into `matrixBuffers[bufferIndex]` unchecked. The context that is in use
is complete, so both its vectors have `k` elements, and the item is the one the client has enqueued
in its turn; so the accesses are in range exactly as long as each client, with each request that is
taken, has enqueued an index below the `k` for which it is taken.
-/

namespace MatrixTransposer

theorem ClientContext.Complete.length_matrixBuffers {req : SubscribeRequest} {ctx : ClientContext}
    (h : ctx.Complete req) :
    ctx.matrixBuffers.length = ctx.matrixSize.k.toNat ∧
      ctx.matrixBuffersTr.length = ctx.matrixSize.k.toNat := by
  have hupTo : (upTo 0 req.k).length = req.k.toNat := by simp [upTo]
  have hbuffers := congrArg List.length h.matrixBuffers
  have hbuffersTr := congrArg List.length h.matrixBuffersTr
  rw [List.length_map, List.length_map, hupTo] at hbuffers hbuffersTr
  rw [h.matrixSize]
  exact ⟨hbuffers, hbuffersTr⟩

namespace AnyClients

open Lib
open RequestCycle (State Client WorkPc ServerInv)

variable {uninitialized : Int32} {s t : State} {a : Action} {pid : UInt32}

/-! ## The steps -/

inductive Move (s : State) : Action → State → Prop where
  | client {pid : UInt32} {a : ClientAction} {c : Client}
      (hstep : clientStep (s.clients pid) a = some c) :
      Move s (.client pid a) (s.setClient pid c)
  | serve {times : Option (UInt64 × UInt64)} {slot : Fin maxClients} {pid : UInt32} {c : Client}
      {work : WorkPc} (huse : s.server.dispatcher = .use slot)
      (hpid : s.work.clientPid (s.server.workspace.clientBank slot) = some pid)
      (hstep : (s.clients pid).serve s.work = some (c, work)) :
      Move s (.server (.dispatcher times)) { s.setClient pid c with work := work }
  | other {a : TransposeServer.ServerAction} {t : State} (hclients : t.clients = s.clients)
      (hshows : observe s (.server a) = [])
      (haccesses : ∀ slot bufferIndex, Accesses t slot bufferIndex →
        Accesses s slot bufferIndex ∧
          t.server.workspace.clientBank slot = s.server.workspace.clientBank slot) :
      Move s (.server a) t

theorem move_of_dispatcher {times : Option (UInt64 × UInt64)} (hserver : ServerInv s)
    (h : RequestCycle.step uninitialized s (.server (.dispatcher times)) = some t) :
    Move s (.server (.dispatcher times)) t := by
  cases RequestCycle.move_of_step h with
  | serve huse hpid hserve => exact .serve huse hpid hserve
  | leave huse hleave hdispatcher =>
      refine .other rfl ?_ ?_
      · simp [observe, huse, hleave]
      · rintro slot bufferIndex ⟨-, hwork⟩
        cases hwork
  | scan huse hdispatcher =>
      have hwork := hserver.work huse
      refine .other rfl ?_ ?_
      · simp only [observe, hwork]
        split
        case h_1 hdequeue => cases hdequeue
        case h_2 => rfl
      · rintro slot bufferIndex ⟨-, htranspose⟩
        cases hwork.symm.trans htranspose
  | handle ha => exact absurd rfl (ha times)

theorem move_of_step (hserver : ServerInv s) (h : step uninitialized s a = some t) :
    Move s a t := by
  cases a with
  | client pid a =>
      obtain ⟨c, hstep, rfl⟩ := Option.map_eq_some_iff.mp h
      exact .client hstep
  | server a =>
      have hstep : TransposeServer.step uninitialized s (.server a) = some t := h
      cases TransposeServer.move_of_step hstep with
      | ignored | add | remove | stop => exact .other rfl rfl fun _ _ haccess => ⟨haccess, rfl⟩
      | @handler throws ws pc hhandler =>
          refine .other rfl rfl ?_
          rintro slot bufferIndex ⟨(huse : s.server.dispatcher = .use slot), hwork⟩
          have hcopy := hserver.flag.2
          rw [huse] at hcopy
          have hhandle : ClientBankHandoff.step uninitialized s.server (.handler throws) =
              some { s.server with workspace := ws, handler := pc } := by
            simp [ClientBankHandoff.step, hhandler]
          exact ⟨⟨huse, hwork⟩, hserver.clientBank_of_handle (by simp) hhandle (Or.inl hcopy)⟩
      | dispatcher hdispatcher => exact move_of_dispatcher hserver hdispatcher

/-! ## The requests that are taken -/

theorem enqueuedBy_map_enqueued (p : UInt32) (items : List UInt32) :
    enqueuedBy pid (items.map (.enqueued p)) = if p = pid then items else [] := by
  by_cases heq : p = pid
  · subst heq
    simp [enqueuedBy, List.filterMap_map]
  · simp [enqueuedBy, List.filterMap_map, heq]

theorem takenFrom_map_enqueued (p : UInt32) (items : List UInt32) :
    takenFrom pid (items.map (.enqueued p)) = [] := by
  simp [takenFrom, List.filterMap_map]

theorem enqueuedBy_map_taken (p k : UInt32) (items : List UInt32) :
    enqueuedBy pid (items.map fun item => .taken p item k) = [] := by
  simp [enqueuedBy, List.filterMap_map]

theorem takenFrom_map_taken (p k : UInt32) (items : List UInt32) :
    (takenFrom pid (items.map fun item => .taken p item k)).map Prod.fst =
      if p = pid then items else [] := by
  by_cases heq : p = pid
  · subst heq
    simp [takenFrom, List.filterMap_map, Function.comp_def, List.map_map]
  · simp [takenFrom, List.filterMap_map, heq]

/-- What a step does to a client's queue, and what is seen of it: nothing, or what one access to the
queue does and answers. -/
def QueueStep (pid : UInt32) (s : State) (a : Action) (t : State) : Prop :=
  (t.clients pid).queue = (s.clients pid).queue ∧ enqueuedBy pid (observe s a) = [] ∧
      (takenFrom pid (observe s a)).map Prod.fst = [] ∨
    ∃ b, SpscQueueSeqLock.step reqQueueCapacity (s.clients pid).queue b =
        some (t.clients pid).queue ∧
      enqueuedBy pid (observe s a) =
        FifoOp.enqueued (SpscQueueSeqLock.returns (s.clients pid).queue b) ∧
      (takenFrom pid (observe s a)).map Prod.fst =
        FifoOp.dequeued (SpscQueueSeqLock.returns (s.clients pid).queue b)

theorem QueueStep.of_nil (hqueue : (t.clients pid).queue = (s.clients pid).queue)
    (hshows : observe s a = []) : QueueStep pid s a t := by
  left
  rw [hshows]
  exact ⟨hqueue, rfl, rfl⟩

theorem observe_dequeue {times : Option (UInt64 × UInt64)} {slot : Fin maxClients} {p : UInt32}
    (huse : s.server.dispatcher = .use slot) (hwork : s.work = .dequeue)
    (hpid : s.work.clientPid (s.server.workspace.clientBank slot) = some p) :
    observe s (.server (.dispatcher times)) =
      (FifoOp.dequeued (SpscQueueSeqLock.returns (s.clients p).queue .consumer)).map fun item =>
        .taken p item (s.server.workspace.clientBank slot).matrixSize.k := by
  rw [hwork] at hpid
  obtain ⟨queue, hqueue, rfl⟩ := Option.map_eq_some_iff.mp hpid
  simp only [observe, huse, hwork, hqueue]

theorem queueStep_client {p : UInt32} {action : ClientAction} {c : Client}
    (hstep : clientStep (s.clients p) action = some c) :
    QueueStep pid s (.client p action) (s.setClient p c) := by
  by_cases heq : pid = p
  · subst heq
    unfold QueueStep
    rw [RequestCycle.setClient_clients_self]
    cases action with
    | enqueue item =>
        obtain ⟨queue, hqueue, rfl⟩ := Option.map_eq_some_iff.mp hstep
        exact Or.inr ⟨_, hqueue, rfl, rfl⟩
    | producer =>
        obtain ⟨queue, hqueue, rfl⟩ := Option.map_eq_some_iff.mp hstep
        refine Or.inr ⟨_, hqueue, ?_, ?_⟩
        · rw [observe, enqueuedBy_map_enqueued, if_pos rfl]
        · rw [observe, takenFrom_map_enqueued,
            SpscQueueSeqLock.dequeued_returns_of_ne (by simp), List.map_nil]
    | wait | run | interrupt =>
        obtain ⟨futex, -, rfl⟩ := Option.map_eq_some_iff.mp hstep
        exact Or.inl ⟨rfl, rfl, rfl⟩
  · have hclient := RequestCycle.setClient_clients_of_ne s heq c
    left
    rw [hclient]
    cases action with
    | producer =>
        rw [observe, enqueuedBy_map_enqueued, if_neg (Ne.symm heq), takenFrom_map_enqueued]
        exact ⟨rfl, rfl, rfl⟩
    | enqueue | wait | run | interrupt => exact ⟨rfl, rfl, rfl⟩

/-- Only `Dequeue` touches the queue. -/
theorem queue_of_serve {c c' : Client} {work work' : WorkPc} (hcall : work ≠ .callDequeue)
    (hdequeue : work ≠ .dequeue) (h : c.serve work = some (c', work')) : c'.queue = c.queue := by
  cases work with
  | callDequeue => exact absurd rfl hcall
  | dequeue => exact absurd rfl hdequeue
  | transpose =>
      cases h
      rfl
  | callWake | wake =>
      obtain ⟨futex, -, heq⟩ := Option.map_eq_some_iff.mp h
      cases heq
      rfl
  | leave => cases h

theorem queueStep_serve {times : Option (UInt64 × UInt64)} {slot : Fin maxClients} {p : UInt32}
    {c : Client} {work : WorkPc} (huse : s.server.dispatcher = .use slot)
    (hpid : s.work.clientPid (s.server.workspace.clientBank slot) = some p)
    (hstep : (s.clients p).serve s.work = some (c, work)) :
    QueueStep pid s (.server (.dispatcher times)) { s.setClient p c with work := work } := by
  have hother (hwork : s.work ≠ .dequeue) :
      observe s (.server (.dispatcher times)) = [] := by
    simp only [observe]
    split
    case h_1 hdequeue => exact absurd hdequeue hwork
    case h_2 => rfl
  by_cases heq : pid = p
  · subst heq
    have hclient : ({ s.setClient pid c with work := work } : State).clients pid = c :=
      RequestCycle.setClient_clients_self s pid c
    cases hwork : s.work with
    | callDequeue =>
        rw [hwork] at hstep
        obtain ⟨queue, hqueue, hc⟩ := Option.map_eq_some_iff.mp hstep
        cases hc
        right
        rw [hclient]
        refine ⟨_, hqueue, ?_, ?_⟩
        · rw [hother (by simp [hwork])]
          rfl
        · rw [hother (by simp [hwork])]
          rfl
    | dequeue =>
        have hshows : observe s (.server (.dispatcher times)) = _ := observe_dequeue huse hwork hpid
        rw [hwork] at hstep
        obtain ⟨queue, hqueue, hc⟩ := Option.map_eq_some_iff.mp hstep
        cases hc
        right
        rw [hclient]
        refine ⟨_, hqueue, ?_, ?_⟩
        · rw [hshows, enqueuedBy_map_taken, SpscQueueSeqLock.enqueued_returns_of_ne (by simp)]
        · rw [hshows, takenFrom_map_taken, if_pos rfl]
    | transpose | callWake | wake =>
        have hqueue : c.queue = (s.clients pid).queue :=
          queue_of_serve (by simp [hwork]) (by simp [hwork]) hstep
        apply QueueStep.of_nil
        · rw [hclient, hqueue]
        · exact hother (by simp [hwork])
    | leave =>
        rw [hwork] at hpid
        cases hpid
  · have hclient : ({ s.setClient p c with work := work } : State).clients pid = s.clients pid :=
      RequestCycle.setClient_clients_of_ne s heq c
    by_cases hwork : s.work = .dequeue
    · left
      rw [hclient, observe_dequeue huse hwork hpid, enqueuedBy_map_taken, takenFrom_map_taken,
        if_neg (Ne.symm heq)]
      exact ⟨rfl, rfl, rfl⟩
    · exact QueueStep.of_nil (by rw [hclient]) (hother hwork)

theorem queueStep_of_step (hserver : ServerInv s) (hstep : step uninitialized s a = some t) :
    QueueStep pid s a t := by
  cases move_of_step hserver hstep with
  | client hclient => exact queueStep_client hclient
  | serve huse hpid hserve => exact queueStep_serve huse hpid hserve
  | other hclients hshows => exact QueueStep.of_nil (by rw [hclients]) hshows

theorem mem_takenFrom {events : List Event} {item k : UInt32} :
    (item, k) ∈ takenFrom pid events ↔ .taken pid item k ∈ events := by
  simp only [takenFrom, List.mem_filterMap]
  constructor
  · rintro ⟨e, he, hsome⟩
    cases e with
    | enqueued => cases hsome
    | taken p item' k' =>
        obtain ⟨rfl, heq⟩ := Option.ite_none_right_eq_some.mp hsome
        cases heq
        exact he
  · intro he
    exact ⟨_, he, if_pos rfl⟩

/-- With the `n`-th request that is taken off its queue, each client has enqueued an index below the
`k` for which the request is taken. -/
def Fits (events : List Event) : Prop :=
  ∀ (pid : UInt32) (n : Nat) (item k : UInt32), (enqueuedBy pid events)[n]? = some item →
    ((takenFrom pid events).map Prod.snd)[n]? = some k → item < k

/-- The `n`-th item that is taken is the `n`-th that has been enqueued. -/
theorem enqueuedBy_of_takenFrom {events : List Event}
    (hheld : (takenFrom pid events).map Prod.fst <+: enqueuedBy pid events) {n : Nat}
    {item k : UInt32} (h : (takenFrom pid events)[n]? = some (item, k)) :
    (enqueuedBy pid events)[n]? = some item := by
  obtain ⟨rest, hrest⟩ := hheld
  have hitem : ((takenFrom pid events).map Prod.fst)[n]? = some item := by simp [h]
  obtain ⟨hlt, -⟩ := List.getElem?_eq_some_iff.mp hitem
  rw [← hrest, List.getElem?_append_left hlt]
  exact hitem

def Event.Fitting : Event → Prop
  | .taken _ item k => item < k
  | .enqueued _ _ => True

instance (e : Event) : Decidable e.Fitting :=
  match e with
  | .taken _ item k => inferInstanceAs (Decidable (item < k))
  | .enqueued _ _ => isTrue trivial

theorem fits_iff {events : List Event}
    (hheld : ∀ pid, (takenFrom pid events).map Prod.fst <+: enqueuedBy pid events) :
    Fits events ↔ ∀ e ∈ events, e.Fitting := by
  constructor
  · intro hfits e he
    cases e with
    | enqueued => trivial
    | taken pid item k =>
        obtain ⟨n, hn⟩ := List.mem_iff_getElem?.mp (mem_takenFrom.mpr he)
        apply hfits pid n item k (enqueuedBy_of_takenFrom (hheld pid) hn)
        simp [hn]
  · intro htaken pid n item k hitem hk
    rw [List.getElem?_map] at hk
    obtain ⟨⟨item', k'⟩, hn, rfl⟩ := Option.map_eq_some_iff.mp hk
    obtain rfl := Option.some.inj
      (hitem.symm.trans (enqueuedBy_of_takenFrom (hheld pid) hn))
    exact htaken _ (mem_takenFrom.mp (List.mem_of_getElem? hn))

/-! ## The accesses -/

def InRange (s : State) : Prop :=
  ∀ slot bufferIndex, Accesses s slot bufferIndex →
    bufferIndex.toNat < (s.server.workspace.clientBank slot).matrixBuffers.length ∧
      bufferIndex.toNat < (s.server.workspace.clientBank slot).matrixBuffersTr.length

theorem inRange_iff (h : ServerInv s) :
    InRange s ↔ ∀ slot bufferIndex, Accesses s slot bufferIndex →
      bufferIndex < (s.server.workspace.clientBank slot).matrixSize.k := by
  apply forall_congr'
  intro slot
  apply forall_congr'
  intro bufferIndex
  apply imp_congr_right
  rintro ⟨huse, -⟩
  have hcopy := h.flag.2
  rw [huse] at hcopy
  obtain ⟨req, hcomplete⟩ := h.bank.copy_built slot hcopy
  rw [hcomplete.length_matrixBuffers.1, hcomplete.length_matrixBuffers.2, and_self,
    UInt32.lt_iff_toNat_lt]

theorem mem_dequeued_of_afterDequeue {ops : List (FifoOp UInt32)} {bufferIndex : UInt32}
    (h : Client.afterDequeue ops = .transpose bufferIndex) : bufferIndex ∈ FifoOp.dequeued ops := by
  unfold Client.afterDequeue at h
  split at h
  case h_3 =>
    cases h
    rw [FifoOp.dequeued_cons_some]
    exact List.mem_cons_self
  case h_1 | h_2 | h_4 => cases h

theorem afterDequeue_of_mem {queue : SpscQueueSeqLock.State} {item : UInt32}
    (h : item ∈ FifoOp.dequeued (SpscQueueSeqLock.returns queue .consumer)) :
    Client.afterDequeue (SpscQueueSeqLock.returns queue .consumer) = .transpose item := by
  cases hpc : queue.consumer with
  | storeTail item' nextTail =>
      simp only [SpscQueueSeqLock.returns, hpc, FifoOp.dequeued_cons_some, FifoOp.dequeued_nil,
        List.mem_singleton] at h
      simp [SpscQueueSeqLock.returns, hpc, Client.afterDequeue, h]
  | idle | loadTail | loadSeqStart | loadSlot | loadSeqEnd =>
      simp only [SpscQueueSeqLock.returns, hpc] at h
      first
        | cases h
        | split at h <;> simp at h

/-- The dispatcher comes to an access by taking the request for it. -/
theorem accesses_of_step (hserver : ServerInv s) (hstep : step uninitialized s a = some t)
    {slot : Fin maxClients} {bufferIndex : UInt32} (haccess : Accesses t slot bufferIndex) :
    Accesses s slot bufferIndex ∧
        t.server.workspace.clientBank slot = s.server.workspace.clientBank slot ∨
      ∃ pid, .taken pid bufferIndex (t.server.workspace.clientBank slot).matrixSize.k ∈
        observe s a := by
  cases move_of_step hserver hstep with
  | client => exact Or.inl ⟨haccess, rfl⟩
  | other _ _ haccesses => exact Or.inl (haccesses slot bufferIndex haccess)
  | @serve times slot' pid c work huse hpid hserve =>
      right
      obtain ⟨huse', rfl⟩ := haccess
      cases huse.symm.trans huse'
      cases hwork : s.work with
      | dequeue =>
          rw [hwork] at hserve
          obtain ⟨queue, -, hc⟩ := Option.map_eq_some_iff.mp hserve
          have hmem := mem_dequeued_of_afterDequeue (Prod.mk.inj hc).2
          refine ⟨pid, ?_⟩
          rw [observe_dequeue huse hwork hpid]
          exact List.mem_map_of_mem hmem
      | callDequeue | transpose | callWake =>
          rw [hwork] at hserve
          simp [Client.serve] at hserve
      | wake =>
          rw [hwork] at hserve
          obtain ⟨futex, -, hc⟩ := Option.map_eq_some_iff.mp hserve
          have hnext := (Prod.mk.inj hc).2
          split at hnext <;> cases hnext
      | leave =>
          rw [hwork] at hpid
          cases hpid

theorem accesses_of_taken (hserver : ServerInv s) (hstep : step uninitialized s a = some t)
    {item k : UInt32} (htaken : .taken pid item k ∈ observe s a) :
    ∃ slot, Accesses t slot item ∧ (t.server.workspace.clientBank slot).matrixSize.k = k := by
  cases move_of_step hserver hstep with
  | @client p action c =>
      cases action <;> simp [observe] at htaken
  | other _ hshows =>
      rw [hshows] at htaken
      cases htaken
  | @serve times slot p c work huse hpid hserve =>
      by_cases hwork : s.work = .dequeue
      · rw [observe_dequeue huse hwork hpid, List.mem_map] at htaken
        obtain ⟨_, hmem, heq⟩ := htaken
        cases heq
        rw [hwork] at hserve
        obtain ⟨queue, -, hc⟩ := Option.map_eq_some_iff.mp hserve
        refine ⟨slot, ⟨huse, ?_⟩, rfl⟩
        exact (Prod.mk.inj hc).2.symm.trans (afterDequeue_of_mem hmem)
      · simp only [observe] at htaken
        split at htaken
        case h_1 hdequeue => exact absurd hdequeue hwork
        case h_2 => cases htaken

/-! ## Runs -/

/-- The queues are accounted for by what has been seen. -/
def Tallied (s : State) (events : List Event) : Prop :=
  ∀ pid, SpscQueueSeqLock.Inv reqQueueCapacity (s.clients pid).queue ∧
    SpscQueueSeqLock.Accounted reqQueueCapacity (s.clients pid).queue (enqueuedBy pid events)
      ((takenFrom pid events).map Prod.fst)

theorem Tallied.step {events : List Event} (h : Tallied s events)
    (hqueue : ∀ pid, QueueStep pid s a t) : Tallied t (events ++ observe s a) := by
  intro pid
  obtain ⟨hinv, haccounted⟩ := h pid
  have henqueued : enqueuedBy pid (events ++ observe s a) =
      enqueuedBy pid events ++ enqueuedBy pid (observe s a) := List.filterMap_append
  have htaken : (takenFrom pid (events ++ observe s a)).map Prod.fst =
      (takenFrom pid events).map Prod.fst ++ (takenFrom pid (observe s a)).map Prod.fst := by
    rw [takenFrom, List.filterMap_append, List.map_append]
    rfl
  rw [henqueued, htaken]
  rcases hqueue pid with ⟨hsame, hnone, hnone'⟩ | ⟨b, hstep, hsome, hsome'⟩
  · rw [hsame, hnone, hnone', List.append_nil, List.append_nil]
    exact ⟨hinv, haccounted⟩
  · rw [hsome, hsome']
    exact ⟨SpscQueueSeqLock.inv_step RequestCycle.checkCapacity_reqQueueCapacity hinv hstep,
      SpscQueueSeqLock.accounted_step RequestCycle.checkCapacity_reqQueueCapacity hinv haccounted
        hstep⟩

theorem Tallied.fits_iff {events : List Event} (h : Tallied s events) :
    Fits events ↔ ∀ e ∈ events, e.Fitting :=
  AnyClients.fits_iff fun pid => SpscQueueSeqLock.prefix_of_accounted (h pid).2 (h pid).1

theorem tallied_initial {serverPid : UInt32} {k requestRepetitions : UInt32 → UInt32} :
    Tallied (RequestCycle.initial serverPid k requestRepetitions) [] := by
  intro pid
  have hitems : QueueSlots.zero.items reqQueueCapacity = [] := QueueSlots.items_zero
  exact ⟨SpscQueueSeqLock.inv_initial RequestCycle.checkCapacity_reqQueueCapacity rfl, hitems.symm⟩

theorem serverInv_step (h : ServerInv s) (hstep : step uninitialized s a = some t) :
    ServerInv t := by
  cases a with
  | client pid a =>
      obtain ⟨c, -, rfl⟩ := Option.map_eq_some_iff.mp hstep
      exact ⟨h.flag, h.bank, h.work⟩
  | server a =>
      have hserver : TransposeServer.step uninitialized s (.server a) = some t := hstep
      exact TransposeServer.serverInv_step h hserver

theorem in_range_iff_fitting {acts : List Action} (hserver : ServerInv s) (hrange : InRange s) :
    (machine uninitialized).Throughout observe (fun t _ => InRange t) s acts ↔
      (machine uninitialized).Steps (fun s a => ∀ e ∈ observe s a, e.Fitting) s acts := by
  apply Machine.throughout_iff_steps (I := fun s _ => ServerInv s ∧ InRange s)
  · rintro s - a t ⟨hs, hrange⟩ hfitting hstep
    have ht := serverInv_step hs hstep
    refine ⟨ht, (inRange_iff ht).mpr ?_⟩
    intro slot bufferIndex haccess
    rcases accesses_of_step hs hstep haccess with ⟨hbefore, hsame⟩ | ⟨pid, htaken⟩
    · rw [hsame]
      exact (inRange_iff hs).mp hrange slot bufferIndex hbefore
    · exact hfitting _ htaken
  · exact fun _ _ hs => hs.2
  · rintro s - a t ⟨hs, -⟩ hstep hrange e he
    cases e with
    | enqueued => trivial
    | taken pid item k =>
        obtain ⟨slot, haccess, rfl⟩ := accesses_of_taken hs hstep he
        exact (inRange_iff (serverInv_step hs hstep)).mp hrange slot item haccess
  · exact ⟨hserver, hrange⟩

theorem fits_iff_fitting {acts : List Action} (hserver : ServerInv s) (htallied : Tallied s []) :
    (machine uninitialized).Throughout observe (fun _ events => Fits events) s acts ↔
      (machine uninitialized).Steps (fun s a => ∀ e ∈ observe s a, e.Fitting) s acts := by
  apply Machine.throughout_iff_steps
    (I := fun s events => ServerInv s ∧ Tallied s events ∧ Fits events)
  · rintro s events a t ⟨hs, htallied, hfits⟩ hfitting hstep
    have htallied' := htallied.step fun pid => queueStep_of_step hs hstep
    refine ⟨serverInv_step hs hstep, htallied', htallied'.fits_iff.mpr ?_⟩
    intro e he
    rcases List.mem_append.mp he with hbefore | hnow
    · exact htallied.fits_iff.mp hfits e hbefore
    · exact hfitting e hnow
  · exact fun _ _ hs => hs.2.2
  · rintro s events a t ⟨hs, htallied, -⟩ hstep hfits e he
    have htallied' := htallied.step fun pid => queueStep_of_step hs hstep
    exact htallied'.fits_iff.mp hfits e (List.mem_append_right events he)
  · refine ⟨hserver, htallied, htallied.fits_iff.mpr ?_⟩
    intro e he
    cases he

/-- **The index is in range exactly when the client sends one that is.** In any run of the server
and clients that enqueue what they like, no access is out of the range of its vector if and only if
the items that were taken fit. -/
theorem in_range_iff_fits {acts : List Action} (hinit : (machine uninitialized).init s) :
    (machine uninitialized).Throughout observe (fun t _ => InRange t) s acts ↔
      (machine uninitialized).Throughout observe (fun _ events => Fits events) s acts := by
  obtain ⟨serverPid, k, requestRepetitions, rfl⟩ := hinit
  have hrange : InRange (RequestCycle.initial serverPid k requestRepetitions) := by
    rintro slot bufferIndex ⟨huse, -⟩
    cases huse
  rw [in_range_iff_fitting RequestCycle.serverInv_initial hrange,
    fits_iff_fitting RequestCycle.serverInv_initial tallied_initial]

/-- Client 7 subscribes with one buffer and enqueues an item, and the dispatcher comes to the access
that the item asks for. -/
def requests (item : UInt32) : List Action :=
  .server (.message { socket := 5 }
      { type := .subscribe, senderId := 7, param1 := 6, param2 := 6, param3 := 1 }) ::
    (List.replicate 21 (.server (.handler false)) ++ [.client 7 (.enqueue item)] ++
      List.replicate 5 (.client 7 .producer) ++ List.replicate 11 (.server (.dispatcher none)))

theorem in_range_first_buffer :
    let start := RequestCycle.initial 1 (fun _ => 0) (fun _ => 0)
    ((machine 0).exec start (requests 0)).isSome = true ∧
      (machine 0).Throughout observe (fun t _ => InRange t) start (requests 0) :=
  ⟨by decide +kernel, (in_range_iff_fits ⟨1, _, _, rfl⟩).mpr
    ((fits_iff_fitting RequestCycle.serverInv_initial tallied_initial).mpr (by decide +kernel))⟩

/-- The index 1 is the first that is not an index of the client's buffers. -/
theorem out_of_range_second_buffer : ∃ s, (machine 0).Reachable s ∧ ¬ InRange s := by
  let slot : Fin maxClients := ⟨0, by decide⟩
  have hfinal : ((machine 0).exec (RequestCycle.initial 1 (fun _ => 0) (fun _ => 0))
      (requests 1)).map (fun s => (s.server.dispatcher,
        (match s.work with | .transpose bufferIndex => some bufferIndex | _ => none),
        (s.server.workspace.clientBank slot).matrixBuffers.length)) =
      some (.use slot, some 1, 1) := by decide +kernel
  obtain ⟨s, hrun, hs⟩ := Option.map_eq_some_iff.mp hfinal
  simp only [Prod.mk.injEq] at hs
  obtain ⟨huse, hwork, hlength⟩ := hs
  refine ⟨s, ⟨_, _, ⟨1, _, _, rfl⟩, hrun⟩, ?_⟩
  intro hrange
  have haccess : Accesses s slot 1 := by
    refine ⟨huse, ?_⟩
    split at hwork
    case h_1 heq =>
      cases hwork
      exact heq
    case h_2 => cases hwork
  have hlt := (hrange slot 1 haccess).1
  rw [hlength] at hlt
  exact absurd hlt (by decide)

end AnyClients

end MatrixTransposer
