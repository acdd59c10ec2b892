import MatrixTransposer.Lib.StepCondition
import MatrixTransposer.Proof.ClientSlots
import MatrixTransposer.Proof.RequestCycle

/-!
# The requests that the server counts

`WorkloadDispatcher` calls `StopTimer` after `Wake`, so the client may have been woken from its last
request, have left its loops and have unsubscribed before the request is counted. At any other time
what the server logs for a client that has finished is right.
-/

namespace MatrixTransposer

/-! ## The statistics of a client -/

/-- The statistics of requests that have taken these times. -/
structure ClientStats.Counts (stats : ClientStats) (elapsed : List UInt64) : Prop where
  requests : stats.totalRequests = UInt64.ofNat elapsed.length
  time : stats.totalElapsedTimeUs = elapsed.sum

theorem ClientStats.counts_new : ClientContext.new.stats.Counts [] := ⟨rfl, rfl⟩

theorem ClientStats.Counts.stopTimer {stats : ClientStats} {elapsed : List UInt64}
    (h : stats.Counts elapsed) (start finish : UInt64) :
    ((stats.startTimer start).stopTimer finish).Counts (elapsed ++ [finish - start]) := by
  refine ⟨?_, ?_⟩
  · change stats.totalRequests + 1 = _
    rw [h.requests, List.length_append, List.length_singleton, UInt64.ofNat_add]
    rfl
  · change stats.totalElapsedTimeUs + (finish - start) = _
    rw [h.time, List.sum_append, List.sum_singleton]

theorem ClientStats.Counts.average {stats : ClientStats} {elapsed : List UInt64}
    (h : stats.Counts elapsed) :
    stats.getAverageElapsedTimeUs = elapsed.sum / UInt64.ofNat elapsed.length := by
  unfold ClientStats.getAverageElapsedTimeUs
  rw [h.requests, h.time]
  split
  case isTrue hzero => rw [hzero, UInt64.div_zero]
  case isFalse => rfl

/-- The total and the average are those of this many requests, which have taken these times. -/
structure ClientStats.CountsAll (stats : ClientStats) (count : Nat) (elapsed : List UInt64) :
    Prop where
  total : stats.totalRequests.toNat = count
  times : elapsed.length = count
  average : stats.getAverageElapsedTimeUs = elapsed.sum / UInt64.ofNat count

theorem ClientStats.Counts.countsAll_iff {stats : ClientStats} {elapsed : List UInt64}
    {count : Nat} {missing : Bool} (h : stats.Counts elapsed) (hbound : count < 2 ^ 64)
    (hcount : count = elapsed.length + missing.toNat) :
    stats.CountsAll count elapsed ↔ missing = false := by
  constructor
  · intro hall
    have htimes := hall.times
    cases missing with
    | false => rfl
    | true => exact absurd htimes (by rw [hcount]; exact Nat.ne_of_lt (Nat.lt_succ_self _))
  · rintro rfl
    obtain rfl : count = elapsed.length := hcount
    refine ⟨?_, rfl, h.average⟩
    rw [h.requests, UInt64.toNat_ofNat', Nat.mod_eq_of_lt hbound]

/-! ## The slot of a client that stays -/

namespace ClientBankHandoff

open ServerWorkspace

variable {uninitialized : Int32} {ws ws' : ServerWorkspace} {s : State} {pc pc' : HandlerPc}
  {pid : UInt32} {slot : Fin maxClients} {elapsed elapsed' : List UInt64} {throws : Bool}

/-- The client that the handler removes is another one. -/
def RemovesOther (pid : UInt32) (ws : ServerWorkspace) : HandlerPc → Prop
  | .removeSearch clientId i =>
      clientId ≠ pid ∧ ∃ j : Fin maxClients, i ≤ j.val ∧ (ws.clientBank j).id = clientId
  | .waitFlag slot false | .loadBits slot false | .storeBits slot false _ =>
      (ws.clientBank slot).id ≠ pid
  | _ => True

/-- What the server has counted for a client that has not unsubscribed and whose requests have taken
these times. -/
structure Recorded (pid : UInt32) (s : State) (elapsed : List UInt64) : Prop where
  removes : RemovesOther pid s.workspace s.handler
  stays : ∀ slot : Fin maxClients, getBit s.localValidClientsBitSet slot = true →
    (s.workspace.clientBank slot).id = pid → getBit s.workspace.validClientsBitSet slot = true
  counts : ∀ slot : Fin maxClients, getBit s.workspace.validClientsBitSet slot = true →
    (s.workspace.clientBank slot).id = pid → (s.workspace.clientBank slot).stats.Counts elapsed
  present : elapsed ≠ [] → ∃ slot : Fin maxClients,
    getBit s.workspace.validClientsBitSet slot = true ∧ (s.workspace.clientBank slot).id = pid

theorem removesOther_of_step (h : RemovesOther pid ws pc)
    (hstep : handlerStep uninitialized ws throws pc = some (ws', pc')) :
    RemovesOther pid ws' pc' := by
  cases pc with
  | removeSearch clientId i =>
      obtain ⟨hne, j, hle, hid⟩ := h
      simp only [handlerStep] at hstep
      split at hstep
      case isTrue hi =>
        split at hstep
        case isTrue hfound =>
          cases hstep
          rw [RemovesOther, hfound]
          exact hne
        case isFalse hother =>
          cases hstep
          refine ⟨hne, j, Nat.lt_of_le_of_ne hle ?_, hid⟩
          rintro rfl
          exact hother hid
      case isFalse hi => exact absurd (Nat.lt_of_le_of_lt hle j.isLt) hi
  | waitFlag slot value | loadBits slot value =>
      cases handlerMove_of_step hstep <;> cases value <;> exact h
  | idle | addSearch | addReset | addBuild | storeBits | setFlag | waitAck | unsubscribe =>
      cases handlerMove_of_step hstep <;> trivial

/-- A bit is cleared only for the client that is removed. -/
theorem valid_of_move {i : Fin maxClients} {copy : UInt64}
    (hmove : HandlerMove uninitialized ws pc ws' pc') (hhandler : HandlerFacts ws copy pc)
    (h : RemovesOther pid ws pc) (hid : (ws.clientBank i).id = pid)
    (hvalid : getBit ws.validClientsBitSet i = true) :
    getBit ws'.validClientsBitSet i = true := by
  cases hmove with
  | @storeBits slot value bits =>
      dsimp only
      rw [hhandler.2.2, getBit_setBit _ slot.isLt i.isLt]
      split
      case isFalse => exact hvalid
      case isTrue heq =>
        cases value with
        | true => rfl
        | false =>
            obtain rfl := Fin.ext heq
            exact absurd hid h
  | taken | free | unassigned | reset | built | thrown | ran | other | found | spin | enter
  | loadBits | added | removing | spinAck | acked | removed => exact hvalid

theorem recorded_handler (hflag : FlagInv s) (hbank : BankInv s) (hslots : SlotInv s)
    (h : Recorded pid s elapsed)
    (hstep : handlerStep uninitialized s.workspace throws s.handler = some (ws', pc')) :
    Recorded pid { s with workspace := ws', handler := pc' } elapsed := by
  have hmove := handlerMove_of_step hstep
  have hkept : ∀ {i : Fin maxClients}, InUse s.workspace s.localValidClientsBitSet i →
      ws'.clientBank i = s.workspace.clientBank i :=
    fun hi => clientBank_of_inUse hmove hbank.slot hflag.1 hi
  have hvalid : ∀ {i : Fin maxClients}, (s.workspace.clientBank i).id = pid →
      getBit s.workspace.validClientsBitSet i = true → getBit ws'.validClientsBitSet i = true :=
    fun hid hi => valid_of_move hmove hflag.1 h.removes hid hi
  refine ⟨removesOther_of_step h.removes hstep, ?_, ?_, ?_⟩
  · intro i hi hid
    rw [hkept (Or.inr hi)] at hid
    exact hvalid hid (h.stays i hi hid)
  · intro i hi hid
    have huse : InUse ws' s.localValidClientsBitSet i := Or.inl hi
    rcases inUse_of_move hmove hflag.1 huse with hold | ⟨bits, hpc, -, hsame⟩
    · rw [hkept hold] at hid ⊢
      exact h.counts i (hold.elim id fun hcopy => h.stays i hcopy hid) hid
    · -- the client is new, and nothing has been counted for it
      have hadds := hslots.adds
      rw [hpc] at hadds
      rw [hsame] at hid ⊢
      obtain rfl : elapsed = [] := by
        by_contra hne
        obtain ⟨j, hj, hjid⟩ := h.present hne
        exact hadds.1 j hj (hjid.trans hid.symm)
      rw [hadds.2.1]
      exact ClientStats.counts_new
  · intro hne
    obtain ⟨i, hi, hid⟩ := h.present hne
    exact ⟨i, hvalid hid hi, by rw [hkept (Or.inl hi)]; exact hid⟩

/-- A step of the dispatcher on its way from slot to slot. -/
theorem recorded_scan {t : State} (h : Recorded pid s elapsed)
    (huse : ∀ slot, s.dispatcher ≠ .use slot) (hmove : DispatcherMove s t) :
    Recorded pid t elapsed := by
  obtain ⟨hremoves, hstays, hcounts, hpresent⟩ := h
  cases hmove with
  | again | exit | seen | unseen | enter | skip | wrap =>
      exact ⟨hremoves, hstays, hcounts, hpresent⟩
  | take => exact ⟨hremoves, fun _ hcopy _ => hcopy, hcounts, hpresent⟩
  | clear =>
      refine ⟨?_, hstays, hcounts, hpresent⟩
      cases hpc : s.handler <;> rw [hpc] at hremoves <;> exact hremoves
  | leave hpc => exact absurd hpc (huse _)

theorem RemovesOther.serve {stats : ClientStats} (h : RemovesOther pid ws pc) :
    RemovesOther pid (serve ws slot stats) pc := by
  cases pc with
  | removeSearch clientId i =>
      obtain ⟨hne, j, hle, hid⟩ := h
      exact ⟨hne, j, hle, id_serve.trans hid⟩
  | waitFlag i value | loadBits i value | storeBits i value bits =>
      cases value with
      | false => exact fun hid => h (id_serve.symm.trans hid)
      | true => trivial
  | idle | addSearch | addReset | addBuild | setFlag | waitAck | unsubscribe => trivial

/-- The dispatcher leaves a slot, and has counted a request there if it has served one. -/
theorem recorded_serve {stats : ClientStats} {dispatcher : DispatcherPc} (hslots : SlotInv s)
    (h : Recorded pid s elapsed) (hcopy : getBit s.localValidClientsBitSet slot = true)
    (hown : (s.workspace.clientBank slot).id = pid → stats.Counts elapsed')
    (hother : (s.workspace.clientBank slot).id ≠ pid → elapsed' = elapsed) :
    Recorded pid
      { s with workspace := serve s.workspace slot stats, dispatcher := dispatcher }
      elapsed' := by
  obtain ⟨hremoves, hstays, hcounts, hpresent⟩ := h
  refine ⟨hremoves.serve, ?_, ?_, ?_⟩
  · intro i hi hid
    rw [id_serve] at hid
    exact hstays i hi hid
  · intro i hi hid
    rw [id_serve] at hid
    by_cases hpid : (s.workspace.clientBank slot).id = pid
    · obtain rfl := hslots.distinct i slot (Or.inl hi) (Or.inr hcopy) (hid.trans hpid.symm)
      rw [serve, setClient_self]
      exact hown hpid
    · have hne : i ≠ slot := by
        rintro rfl
        exact hpid hid
      rw [serve, setClient_of_ne _ hne, hother hpid]
      exact hcounts i hi hid
  · intro hne
    by_cases hpid : (s.workspace.clientBank slot).id = pid
    · exact ⟨slot, hstays slot hcopy hpid, id_serve.trans hpid⟩
    · rw [hother hpid] at hne
      obtain ⟨i, hi, hid⟩ := hpresent hne
      exact ⟨i, hi, id_serve.trans hid⟩

end ClientBankHandoff

/-! ## What has been transposed and what has been counted -/

namespace RequestCycle

variable {uninitialized : Int32} {s t : State} {c c' : Client} {work work' : WorkPc}

/-- A request has been transposed and its `StopTimer` has not returned. -/
def WorkPc.timing : WorkPc → Bool
  | .callWake | .wake => true
  | .leave served => served
  | .callDequeue | .dequeue | .transpose _ => false

theorem Client.timing_serve (hserve : c.serve work = some (c', work')) :
    ((c.servingShows work).filterMap Event.transposed?).length + work.timing.toNat =
      work'.timing.toNat := by
  cases work with
  | callDequeue =>
      obtain ⟨queue, -, heq⟩ := Option.map_eq_some_iff.mp hserve
      cases heq
      rfl
  | dequeue =>
      obtain ⟨queue, -, heq⟩ := Option.map_eq_some_iff.mp hserve
      cases heq
      have hnone : (c.servingShows .dequeue).filterMap Event.transposed? = [] := by
        simp [servingShows, Event.transposed?, List.filterMap_eq_nil_iff]
      rw [hnone]
      unfold afterDequeue
      split <;> rfl
  | transpose b =>
      cases hserve
      rfl
  | callWake =>
      obtain ⟨futex, -, heq⟩ := Option.map_eq_some_iff.mp hserve
      cases heq
      rfl
  | wake =>
      obtain ⟨futex, -, heq⟩ := Option.map_eq_some_iff.mp hserve
      obtain ⟨-, rfl⟩ := Prod.mk.inj heq
      have hnone : (c.servingShows .wake).filterMap Event.transposed? = [] := by
        simp [servingShows, Event.transposed?, List.filterMap_eq_nil_iff]
      rw [hnone]
      split <;> rfl
  | leave => cases hserve

theorem isSome_of_leave {times : Option (UInt64 × UInt64)} {slot : Fin maxClients} {served : Bool}
    (huse : s.server.dispatcher = .use slot) (hwork : s.work = .leave served)
    (hstep : step uninitialized s (.server (.dispatcher times)) = some t) :
    times.isSome = served := by
  simp only [step, dispatcherStep, huse, hwork] at hstep
  split at hstep
  case isTrue hserved => exact hserved
  case isFalse => cases hstep

end RequestCycle

namespace TransposeServer

open Lib
open ClientBankHandoff hiding State
open RequestCycle (State ServerInv Event)

variable {uninitialized : Int32} {s t : State} {pid : UInt32} {elapsed : List UInt64}

/-- What `StopTimer` adds to the elapsed time of the client with this pid. -/
def timed (pid : UInt32) (s : State) : Action → List UInt64
  | .server (.dispatcher times) =>
      match s.server.dispatcher, s.work with
      | .use slot, .leave _ =>
          if (s.server.workspace.clientBank slot).id = pid then
            (times.map fun (start, finish) => finish - start).toList
          else []
      | _, _ => []
  | _ => []

theorem timed_of_not_leave {times : Option (UInt64 × UInt64)}
    (h : ∀ slot served, s.server.dispatcher = .use slot → s.work ≠ .leave served) :
    timed pid s (.server (.dispatcher times)) = [] := by
  simp only [timed]

theorem timing_dispatcher {times : Option (UInt64 × UInt64)} (hserver : ServerInv s)
    (hstep : RequestCycle.step uninitialized s (.server (.dispatcher times)) = some t) :
    ((RequestCycle.observe pid s (.server (.dispatcher times))).filterMap
        Event.transposed?).length + (s.workOn pid).timing.toNat =
      (timed pid s (.server (.dispatcher times))).length + (t.workOn pid).timing.toNat := by
  cases RequestCycle.move_of_step hstep with
  | @serve _ slot p c work huse hpid hserve =>
      have htimed : timed pid s (.server (.dispatcher times)) = [] := by
        apply timed_of_not_leave
        intro _ served _ hleave
        rw [hleave] at hserve
        cases hserve
      have hp := hserver.pid_eq huse hpid
      rw [htimed, List.length_nil, Nat.zero_add]
      by_cases heq : pid = p
      · subst heq
        have hbefore : s.workOn pid = s.work := hp ▸ RequestCycle.workOn_of_use huse
        have hafter : ({ s.setClient pid c with work := work } : State).workOn pid = work := by
          rw [hp]
          exact RequestCycle.workOn_of_serve huse
        rw [RequestCycle.observe_of_serve huse hpid, hbefore, hafter]
        exact RequestCycle.Client.timing_serve hserve
      · have hne : (s.server.workspace.clientBank slot).id ≠ pid := hp ▸ Ne.symm heq
        have hafter :
            ({ s.setClient p c with work := work } : State).workOn pid = .callDequeue :=
          RequestCycle.workOn_of_ne huse hne
        rw [RequestCycle.observe_of_ne huse hpid heq, RequestCycle.workOn_of_ne huse hne, hafter]
        rfl
  | @leave _ slot served server huse hwork hdispatcher =>
      have hserved := RequestCycle.isSome_of_leave huse hwork hstep
      have hafter :
          ({ s with server := server, work := .callDequeue } : State).workOn pid =
            .callDequeue := RequestCycle.workOn_of_work rfl
      rw [RequestCycle.observe_of_leave huse hwork, hafter]
      simp only [timed, huse, hwork, RequestCycle.State.workOn]
      split
      · cases times <;> cases hserved <;> rfl
      · rfl
  | @scan _ server huse hdispatcher =>
      have htimed : timed pid s (.server (.dispatcher times)) = [] :=
        timed_of_not_leave fun slot _ hslot => absurd hslot (huse slot)
      have hafter : ({ s with server := server } : State).workOn pid = .callDequeue :=
        RequestCycle.workOn_of_work (hserver.work huse)
      rw [htimed, RequestCycle.observe_of_not_use huse, hafter, RequestCycle.workOn_of_not_use huse]
      rfl
  | handle ha => exact absurd rfl (ha times)

theorem timing_step {a : Action} (pid : UInt32) (hserver : ServerInv s)
    (hstep : step uninitialized s a = some t) :
    ((observe pid s a).filterMap Event.transposed?).length + (s.workOn pid).timing.toNat =
      (timed pid s a).length + (t.workOn pid).timing.toNat := by
  cases move_of_step hstep with
  | ignored | add | remove | stop => rfl
  | @handler throws ws pc hhandler =>
      have hmove : ClientBankHandoff.step uninitialized s.server (.handler throws) =
          some { s.server with workspace := ws, handler := pc } := by
        simp [ClientBankHandoff.step, hhandler]
      rw [RequestCycle.workOn_of_handle hserver (by simp) hmove]
      rfl
  | dispatcher hdispatcher => exact timing_dispatcher hserver hdispatcher
  | @client p _ hclient =>
      obtain ⟨c, -, rfl⟩ := Option.map_eq_some_iff.mp hclient
      have hshows : (observe pid s (.client p)).filterMap Event.transposed? = [] := by
        simp only [observe, RequestCycle.observe]
        split
        · exact RequestCycle.Client.transposed_shows _
        · rfl
      rw [hshows]
      rfl
  | interrupt hinterrupt =>
      obtain ⟨futex, -, rfl⟩ := Option.map_eq_some_iff.mp hinterrupt
      rfl

/-- What has been transposed has been counted, except what the dispatcher is just timing. -/
theorem timing_of_exec {acts : List Action} (pid : UInt32) (hserver : ServerInv s)
    (hrun : (machine uninitialized).exec s acts = some t) :
    (((machine uninitialized).trace (observe pid) s acts).filterMap Event.transposed?).length +
        (s.workOn pid).timing.toNat =
      ((machine uninitialized).trace (timed pid) s acts).length +
        (t.workOn pid).timing.toNat := by
  induction acts generalizing s with
  | nil =>
      cases hrun
      rfl
  | cons a as ih =>
      obtain ⟨r, hfirst, hrest⟩ := Machine.exec_cons_eq_some.mp hrun
      have hhead := timing_step pid hserver hfirst
      have htail := ih (serverInv_step hserver hfirst) hrest
      rw [Machine.trace_cons hfirst, Machine.trace_cons hfirst, List.filterMap_append,
        List.length_append, List.length_append]
      omega

/-! ## The statistics along a run -/

/-- The step hands over an `Unsubscribe` of the client with this pid. -/
def Unsubscribes (pid : UInt32) : Action → Prop
  | .server (.message _ message) => message.type = .unsubscribe ∧ message.senderId = pid
  | _ => False

instance (pid : UInt32) (a : Action) : Decidable (Unsubscribes pid a) :=
  match a with
  | .server (.message _ _) => inferInstanceAs (Decidable (_ ∧ _))
  | .server (.handler _) | .server (.dispatcher _) | .server .stop | .client _ | .interrupt _ =>
      isFalse id

theorem recorded_dispatcher {times : Option (UInt64 × UInt64)} (hserver : ServerInv s)
    (hslots : SlotInv s.server) (h : Recorded pid s.server elapsed)
    (hstep : RequestCycle.step uninitialized s (.server (.dispatcher times)) = some t) :
    Recorded pid t.server (elapsed ++ timed pid s (.server (.dispatcher times))) := by
  cases RequestCycle.move_of_step hstep with
  | @serve _ slot p c work huse hpid hserve =>
      rw [timed_of_not_leave, List.append_nil]
      · exact h
      · intro _ served _ hleave
        rw [hleave] at hserve
        cases hserve
  | @leave _ slot served server huse hwork hdispatcher =>
      have hcopy := hserver.flag.2
      rw [huse] at hcopy
      simp only [ClientBankHandoff.dispatcherStep, huse, Option.some.injEq] at hdispatcher
      subst hdispatcher
      simp only [timed, huse, hwork]
      cases times with
      | none =>
          apply recorded_serve hslots h hcopy
          · intro hpid
            rw [if_pos hpid, Option.map_none, Option.toList_none, List.append_nil]
            exact h.counts slot (h.stays slot hcopy hpid) hpid
          · intro hpid
            rw [if_neg hpid, List.append_nil]
      | some times =>
          apply recorded_serve hslots h hcopy
          · intro hpid
            rw [if_pos hpid]
            exact (h.counts slot (h.stays slot hcopy hpid) hpid).stopTimer times.1 times.2
          · intro hpid
            rw [if_neg hpid, List.append_nil]
  | @scan _ server huse hdispatcher =>
      rw [timed_of_not_leave fun slot _ hslot => absurd hslot (huse slot), List.append_nil]
      exact recorded_scan h huse (dispatcherMove_of_step hdispatcher)
  | handle ha => exact absurd rfl (ha times)

theorem recorded_step {a : Action} (hserver : ServerInv s) (hslots : SlotInv s.server)
    (h : Recorded pid s.server elapsed) (hstays : ¬ Unsubscribes pid a)
    (hstep : step uninitialized s a = some t) :
    Recorded pid t.server (elapsed ++ timed pid s a) := by
  cases move_of_step hstep with
  | ignored =>
      simp only [timed, List.append_nil]
      exact h
  | add =>
      simp only [timed, List.append_nil]
      exact ⟨trivial, h.stays, h.counts, h.present⟩
  | @remove context message slot _ htype hexists =>
      simp only [timed, List.append_nil]
      obtain ⟨⟨-, hid⟩, -⟩ := ServerWorkspace.clientExists_eq_some.mp hexists
      have hne : message.senderId ≠ pid := fun hsender => hstays ⟨htype, hsender⟩
      exact ⟨⟨hne, slot, Nat.zero_le _, hid⟩, h.stays, h.counts, h.present⟩
  | handler hhandler =>
      simp only [timed, List.append_nil]
      exact recorded_handler hserver.flag hserver.bank hslots h hhandler
  | dispatcher hdispatcher => exact recorded_dispatcher hserver hslots h hdispatcher
  | stop =>
      simp only [timed, List.append_nil]
      exact ⟨h.removes, h.stays, h.counts, h.present⟩
  | client hclient =>
      obtain ⟨c, -, rfl⟩ := Option.map_eq_some_iff.mp hclient
      simp only [timed, List.append_nil]
      exact h
  | interrupt hinterrupt =>
      obtain ⟨futex, -, rfl⟩ := Option.map_eq_some_iff.mp hinterrupt
      simp only [timed, List.append_nil]
      exact h

theorem recorded_of_exec {acts : List Action} (hinit : (machine uninitialized).init s)
    (hstays : (machine uninitialized).Steps (fun _ a => ¬ Unsubscribes pid a) s acts)
    (hrun : (machine uninitialized).exec s acts = some t) :
    Recorded pid t.server ((machine uninitialized).trace (timed pid) s acts) := by
  let Kept (s : State) (elapsed : List UInt64) : Prop :=
    (machine uninitialized).Reachable s ∧ Recorded pid s.server elapsed
  have hstart : Kept s [] := by
    refine ⟨Machine.Reachable.of_init hinit, ?_⟩
    obtain ⟨serverPid, k, requestRepetitions, rfl⟩ := hinit
    refine ⟨trivial, ?_, ?_, fun hne => absurd rfl hne⟩
    · intro slot hcopy
      simp [RequestCycle.initial, ClientBankHandoff.initial] at hcopy
    · intro slot hvalid
      simp [RequestCycle.initial, ClientBankHandoff.initial, ServerWorkspace.initial] at hvalid
  have hkeep : ∀ s elapsed a t, Kept s elapsed → ¬ Unsubscribes pid a →
      step uninitialized s a = some t → Kept t (elapsed ++ timed pid s a) := by
    rintro s elapsed a t ⟨hreach, hrecorded⟩ ha hstep
    have hserver := RequestCycle.serverInv_of_reachable (requestCycle_reachable hreach)
    exact ⟨hreach.step hstep,
      recorded_step hserver (slotInv_of_reachable hreach) hrecorded ha hstep⟩
  exact (Machine.exec_trace_of_steps hkeep hstart hstays hrun).2

/-! ## A client that has finished -/

theorem length_repetitions (k : UInt32) (count : Nat) :
    (RequestCycle.repetitions k count).length = k.toNat * count := by
  simp [RequestCycle.repetitions, upTo, Nat.mul_comm]

/-- The client has been woken from all its requests, and each has been transposed. -/
theorem woken_of_done {acts : List Action} (hinit : (machine uninitialized).init s)
    (hrun : (machine uninitialized).exec s acts = some t) (hdone : (t.clients pid).main = .done) :
    let history := (machine uninitialized).trace (observe pid) s acts
    let woken := (history.filterMap Event.waited?).length
    woken = (t.clients pid).k.toNat * (t.clients pid).requestRepetitions.toNat ∧
      (history.filterMap Event.transposed?).length = woken := by
  obtain ⟨stage, hat, hrounds⟩ := clientInv_of_exec hinit hrun pid
  have hmain := hat.main
  rw [hdone] at hmain
  obtain rfl := hmain.1
  refine ⟨?_, ?_⟩
  · obtain ⟨cycle, hcycle, htrace⟩ := exists_requestCycle_exec hrun
    have hcalled := RequestCycle.called_of_exec hinit hcycle pid
    rw [htrace] at hcalled
    rw [RequestCycle.history_of_resting hrounds, hcalled, RequestCycle.Client.requested, hdone]
    exact length_repetitions _ _
  · exact hrounds.length_filterMap RequestCycle.filterMap_transposed RequestCycle.filterMap_waited

theorem log_of_reported {ws : ServerWorkspace} {message : ClientServerMessage}
    {ctx : ClientContext} (env : Environment) (context : UnixSockIpcContext)
    (h : reported ws message = some ctx) :
    ∃ slot, ws.clientExists message.senderId = some slot ∧ ws.clientBank slot = ctx ∧
      (messageHandler env ws context message).map Handled.log = some [clientSummary ctx] := by
  unfold reported at h
  cases htype : message.type with
  | unsubscribe =>
      simp only [htype, ClientServerMessage.processUnsubscribeMessage, ne_eq, not_true_eq_false,
        if_false] at h
      obtain ⟨slot, hexists, rfl⟩ := Option.map_eq_some_iff.mp h
      refine ⟨slot, hexists, rfl, ?_⟩
      simp only [messageHandler, htype, ClientServerMessage.processUnsubscribeMessage, ne_eq,
        not_true_eq_false, if_false, handleUnsubscribe, hexists, Option.map_some]
  | subscribe | subscribeResponse | unknown =>
      rw [htype] at h
      cases h

/-- **The requests that are logged.** A client that has finished has been woken from all its
requests. When the server handles its `Unsubscribe`, what it logs accounts for them all exactly if
the dispatcher is not between transposing the last one and the end of `StopTimer`. -/
theorem counts_all_iff {s₀ : State} {acts : List Action} {context : UnixSockIpcContext}
    {message : ClientServerMessage} {ctx : ClientContext} (env : Environment)
    (hinit : (machine uninitialized).init s₀)
    (hrun : (machine uninitialized).exec s₀ acts = some s)
    (hstays : (machine uninitialized).Steps (fun _ a => ¬ Unsubscribes pid a) s₀ acts)
    (hdone : (s.clients pid).main = .done)
    (hstep : step uninitialized s (.server (.message context message)) = some t)
    (hsender : message.senderId = pid)
    (hreported : reported s.server.workspace message = some ctx) :
    let client := s.clients pid
    let history := (machine uninitialized).trace (observe pid) s₀ acts
    let woken := (history.filterMap Event.waited?).length
    let elapsed := (machine uninitialized).trace (timed pid) s₀ acts
    (messageHandler env s.server.workspace context message).map Handled.log =
        some [clientSummary ctx] ∧
      woken = client.k.toNat * client.requestRepetitions.toNat ∧
      (ctx.stats.CountsAll woken elapsed ↔ (s.workOn pid).timing = false) := by
  obtain ⟨slot, hexists, rfl, hlog⟩ := log_of_reported env context hreported
  obtain ⟨hwoken, htransposed⟩ := woken_of_done hinit hrun hdone
  refine ⟨hlog, hwoken, ?_⟩
  have hserver := RequestCycle.serverInv_of_reachable
    (requestCycle_reachable ⟨s₀, acts, hinit, hrun⟩)
  have hidle : s.server.handler = .idle := by
    cases move_of_step hstep with
    | ignored hidle | add hidle | remove hidle => exact hidle
  obtain ⟨⟨hsubscribed, hid⟩, -⟩ := ServerWorkspace.clientExists_eq_some.mp hexists
  have hvalid : getBit s.server.workspace.validClientsBitSet slot = true := by
    rw [← hserver.bank.subscribed_iff slot (by rw [hidle]; exact id)]
    exact hsubscribed
  have hcounts := (recorded_of_exec hinit hstays hrun).counts slot hvalid (hid.trans hsender)
  apply hcounts.countsAll_iff
  · have hk := (s.clients pid).k.toNat_lt
    have hrepetitions := (s.clients pid).requestRepetitions.toNat_lt
    rw [hwoken]
    calc
      (s.clients pid).k.toNat * (s.clients pid).requestRepetitions.toNat < 2 ^ 32 * 2 ^ 32 :=
        Nat.mul_lt_mul'' hk hrepetitions
      _ = 2 ^ 64 := (Nat.pow_add 2 32 32).symm
  · obtain ⟨hserver₀, hstart⟩ : ServerInv s₀ ∧ s₀.workOn pid = .callDequeue := by
      obtain ⟨serverPid, k, requestRepetitions, rfl⟩ := hinit
      exact ⟨RequestCycle.serverInv_initial, rfl⟩
    have htiming := timing_of_exec pid hserver₀ hrun
    rw [hstart, htransposed] at htiming
    exact htiming

/-- Client 7 subscribes and makes its only request. The dispatcher transposes it and wakes the
client, which then leaves its loops. -/
def oneRequest : List Action :=
  .server (.message { socket := 5 }
      { type := .subscribe, senderId := 7, param1 := 6, param2 := 6, param3 := 1 }) ::
    (List.replicate 21 (.server (.handler false)) ++
      List.replicate 4 (.server (.dispatcher none)) ++ List.replicate 9 (.client 7) ++
      List.replicate 11 (.server (.dispatcher none)) ++ List.replicate 3 (.client 7))

def unsubscribeMessage : ClientServerMessage where
  type := .unsubscribe
  senderId := 7
  param1 := 0
  param2 := 0
  param3 := 0

/-- If `StopTimer` has returned when the `Unsubscribe` comes, the request is counted. -/
theorem counts_all_one_request :
    let start := RequestCycle.initial 1 (fun _ => 1) (fun _ => 1)
    let acts := oneRequest ++ [.server (.dispatcher (some (3, 8)))]
    ∃ s ctx, (machine 0).exec start acts = some s ∧
      reported s.server.workspace unsubscribeMessage = some ctx ∧
      ctx.stats.CountsAll 1 ((machine 0).trace (timed 7) start acts) := by
  intro start acts
  have hfinal : ((machine 0).exec start acts).map (fun s =>
      ((s.clients 7).main, (s.workOn 7).timing,
        (step 0 s (.server (.message { socket := 5 } unsubscribeMessage))).isSome,
        (reported s.server.workspace unsubscribeMessage).isSome)) =
      some (.done, false, true, true) := by decide +kernel
  have hwoken :
      (((machine 0).trace (observe 7) start acts).filterMap Event.waited?).length = 1 := by
    decide +kernel
  obtain ⟨s, hrun, hs⟩ := Option.map_eq_some_iff.mp hfinal
  simp only [Prod.mk.injEq] at hs
  obtain ⟨hdone, htiming, hstep, hreported⟩ := hs
  obtain ⟨t, hstep⟩ := Option.isSome_iff_exists.mp hstep
  obtain ⟨ctx, hreported⟩ := Option.isSome_iff_exists.mp hreported
  obtain ⟨-, -, hcounts⟩ := counts_all_iff ⟨0, fun _ => false⟩ ⟨1, _, _, rfl⟩ hrun
    (by decide +kernel) hdone hstep rfl hreported
  have hall := hcounts.mpr htiming
  exact ⟨s, ctx, hrun, hreported, hwoken ▸ hall⟩

/-- If it has not, the client has been woken and the server logs that it has served nothing. -/
theorem last_request_not_counted :
    let start := RequestCycle.initial 1 (fun _ => 1) (fun _ => 1)
    (machine 0).init start ∧
      (machine 0).Steps (fun _ a => ¬ Unsubscribes 7 a) start oneRequest ∧
      (((machine 0).trace (observe 7) start oneRequest).filterMap Event.waited?).length = 1 ∧
      ∃ s t ctx, (machine 0).exec start oneRequest = some s ∧ (s.clients 7).main = .done ∧
        step 0 s (.server (.message { socket := 5 } unsubscribeMessage)) = some t ∧
        reported s.server.workspace unsubscribeMessage = some ctx ∧
        ctx.stats.totalRequests = 0 := by
  intro start
  have hfinal : ((machine 0).exec start oneRequest).map (fun s =>
      ((s.clients 7).main,
        (step 0 s (.server (.message { socket := 5 } unsubscribeMessage))).isSome,
        (reported s.server.workspace unsubscribeMessage).map fun ctx => ctx.stats.totalRequests)) =
      some (.done, true, some 0) := by decide +kernel
  obtain ⟨s, hrun, hs⟩ := Option.map_eq_some_iff.mp hfinal
  simp only [Prod.mk.injEq] at hs
  obtain ⟨hdone, hstep, hreported⟩ := hs
  obtain ⟨t, hstep⟩ := Option.isSome_iff_exists.mp hstep
  obtain ⟨ctx, hreported, hzero⟩ := Option.map_eq_some_iff.mp hreported
  exact ⟨⟨1, _, _, rfl⟩, by decide +kernel, by decide +kernel, s, t, ctx, hrun, hdone, hstep,
    hreported, hzero⟩

end TransposeServer

end MatrixTransposer
