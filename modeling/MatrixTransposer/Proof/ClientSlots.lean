import MatrixTransposer.Proof.TransposeServer

/-!
# One slot for each client

`MessageHandler` calls `AddClient` only for a client that it does not find in the bank, so no two
slots that the dispatcher may use are of the same client. The slot that is being added is in neither
bit set until its bit is stored, and its statistics are those of a new context.
-/

namespace MatrixTransposer

theorem BuildStep.stats_run {req : SubscribeRequest} {fails : Bool} {ctx ctx' : ClientContext}
    {s : BuildStep} (h : s.run req fails ctx = some ctx') : ctx'.stats = ctx.stats := by
  cases s with
  | reserveMatrixBuffers | reserveMatrixBuffersTr | makeFutex | makeQueue =>
      cases fails <;> cases h
      rfl
  | pushMatrixBuffer | pushMatrixBufferTr =>
      obtain ⟨buffer, -, rfl⟩ := Option.map_eq_some_iff.mp h
      rfl
  | setId | setM | setN | setK | setNumRows | setNumColumns | setIpcContext | setSubscribed =>
      cases h
      rfl

namespace ClientBankHandoff

open ServerWorkspace

variable {uninitialized : Int32} {ws ws' : ServerWorkspace} {s t : State} {pc pc' : HandlerPc}
  {slot : Fin maxClients}

/-- No client with this id has its bit set. -/
def Absent (ws : ServerWorkspace) (clientId : UInt32) : Prop :=
  ∀ i : Fin maxClients, getBit ws.validClientsBitSet i = true → (ws.clientBank i).id ≠ clientId

/-- What the handler knows about the client it adds. -/
def AddFacts (ws : ServerWorkspace) : HandlerPc → Prop
  | .addSearch req _ | .addReset req _ => Absent ws req.clientId
  | .addBuild req slot _ =>
      Absent ws req.clientId ∧ (ws.clientBank slot).stats = ClientContext.new.stats
  | .waitFlag slot true | .loadBits slot true | .storeBits slot true _ =>
      Absent ws (ws.clientBank slot).id ∧ (ws.clientBank slot).stats = ClientContext.new.stats ∧
        getBit ws.validClientsBitSet slot = false
  | _ => True

/-- The dispatcher uses the slot, or will when it has taken the update. -/
def InUse (ws : ServerWorkspace) (copy : UInt64) (slot : Fin maxClients) : Prop :=
  getBit ws.validClientsBitSet slot = true ∨ getBit copy slot = true

def Distinct (ws : ServerWorkspace) (copy : UInt64) : Prop :=
  ∀ i j, InUse ws copy i → InUse ws copy j → (ws.clientBank i).id = (ws.clientBank j).id → i = j

structure SlotInv (s : State) : Prop where
  adds : AddFacts s.workspace s.handler
  distinct : Distinct s.workspace s.localValidClientsBitSet

theorem Absent.setClient {clientId : UInt32} (h : Absent ws clientId)
    (hclear : getBit ws.validClientsBitSet slot = false) (ctx : ClientContext) :
    Absent (ws.setClient slot ctx) clientId := by
  intro i hi
  have hne : i ≠ slot := by
    rintro rfl
    rw [show getBit ws.validClientsBitSet i = true from hi] at hclear
    cases hclear
  rw [setClient_of_ne ws hne]
  exact h i hi

theorem addFacts_of_move (hmove : HandlerMove uninitialized ws pc ws' pc') (h : AddFacts ws pc)
    (hslot : SlotFacts ws pc) : AddFacts ws' pc' := by
  cases hmove with
  | taken | free | unassigned => exact h
  | reset => exact ⟨h.setClient hslot _, by rw [setClient_self]⟩
  | built =>
      obtain ⟨habsent, hstats⟩ := h
      obtain ⟨hclear, before, hsteps, hprogress⟩ := hslot
      rw [List.append_nil] at hsteps
      rw [hsteps] at hprogress
      rw [← (complete_of_progress hprogress).id] at habsent
      exact ⟨habsent, hstats, hclear⟩
  | ran hrun =>
      refine ⟨h.1.setClient hslot.1 _, ?_⟩
      rw [setClient_self, BuildStep.stats_run hrun]
      exact h.2
  | @spin slot value => cases value <;> exact h
  | @enter slot value => cases value <;> exact h
  | @loadBits slot value => cases value <;> exact h
  | thrown | other | found | storeBits | added | removing | spinAck | acked | removed => trivial

/-- A slot in use is not written. -/
theorem clientBank_of_inUse {copy : UInt64} {i : Fin maxClients}
    (hmove : HandlerMove uninitialized ws pc ws' pc') (hslot : SlotFacts ws pc)
    (hhandler : HandlerFacts ws copy pc) (hi : InUse ws copy i) :
    ws'.clientBank i = ws.clientBank i := by
  apply clientBank_of_move hmove
  intro hwrites
  obtain ⟨hvalid, hcopy⟩ := clear_of_writes hslot hhandler hwrites
  simp [InUse, hvalid, hcopy] at hi

/-- The only slot that comes into use is the one whose bit `AddClient` stores. -/
theorem inUse_of_move {copy : UInt64} {i : Fin maxClients}
    (hmove : HandlerMove uninitialized ws pc ws' pc') (hhandler : HandlerFacts ws copy pc)
    (hi : InUse ws' copy i) :
    InUse ws copy i ∨
      ∃ bits, pc = .storeBits i true bits ∧ copy = ws.validClientsBitSet ∧
        ws'.clientBank = ws.clientBank := by
  cases hmove with
  | @storeBits slot value bits =>
      rcases hi with hvalid | hcopy
      · dsimp only at hvalid
        rw [hhandler.2.2, getBit_setBit _ slot.isLt i.isLt] at hvalid
        by_cases heq : i = slot
        · subst heq
          rw [if_pos rfl] at hvalid
          subst hvalid
          exact Or.inr ⟨bits, rfl, hhandler.2.1, rfl⟩
        · rw [if_neg (Fin.val_ne_of_ne heq)] at hvalid
          exact Or.inl (Or.inl hvalid)
      · exact Or.inl (Or.inr hcopy)
  | taken | free | unassigned | reset | built | thrown | ran | other | found | spin | enter
  | loadBits | added | removing | spinAck | acked | removed => exact Or.inl hi

theorem distinct_of_move {copy : UInt64} (hmove : HandlerMove uninitialized ws pc ws' pc')
    (hslot : SlotFacts ws pc) (hhandler : HandlerFacts ws copy pc) (hadds : AddFacts ws pc)
    (h : Distinct ws copy) : Distinct ws' copy := by
  -- the client that is added is absent
  have hnew : ∀ i j bits, pc = .storeBits i true bits → copy = ws.validClientsBitSet →
      InUse ws copy j → (ws.clientBank j).id ≠ (ws.clientBank i).id := by
    rintro i j bits rfl rfl hj
    exact hadds.1 j (or_self_iff.mp hj)
  intro i j hi hj hid
  rcases inUse_of_move hmove hhandler hi with hi | ⟨bits, hpc, hcopy, hbank⟩
  · rw [clientBank_of_inUse hmove hslot hhandler hi] at hid
    rcases inUse_of_move hmove hhandler hj with hj | ⟨bits, hpc, hcopy, hbank⟩
    · rw [clientBank_of_inUse hmove hslot hhandler hj] at hid
      exact h i j hi hj hid
    · rw [hbank] at hid
      exact absurd hid (hnew j i bits hpc hcopy hi)
  · rw [hbank] at hid
    rcases inUse_of_move hmove hhandler hj with hj | ⟨bits', hpc', -, -⟩
    · exact absurd hid.symm (hnew i j bits hpc hcopy hj)
    · cases hpc.symm.trans hpc'
      rfl

theorem slotInv_handler (hflag : FlagInv s) (hbank : BankInv s) (h : SlotInv s)
    (hmove : HandlerMove uninitialized s.workspace s.handler ws' pc') :
    SlotInv { s with workspace := ws', handler := pc' } :=
  ⟨addFacts_of_move hmove h.adds hbank.slot,
    distinct_of_move hmove hbank.slot hflag.1 h.adds h.distinct⟩

theorem inUse_take {i : Fin maxClients} {copy : UInt64}
    (h : InUse ws ws.validClientsBitSet i) : InUse ws copy i :=
  Or.inl (or_self_iff.mp h)

theorem Absent.serve {clientId : UInt32} {stats : ClientStats} (h : Absent ws clientId) :
    Absent (serve ws slot stats) clientId := by
  intro i hi
  rw [id_serve]
  exact h i hi

/-- The slot that is being added is not the one the dispatcher works on. -/
theorem addFacts_serve {copy : UInt64} {stats : ClientStats} (h : AddFacts ws pc)
    (hslot : SlotFacts ws pc) (hhandler : HandlerFacts ws copy pc)
    (hcopy : getBit copy slot = true) : AddFacts (serve ws slot stats) pc := by
  have hother : ∀ i : Fin maxClients, Within copy ws.validClientsBitSet →
      getBit ws.validClientsBitSet i = false →
      (serve ws slot stats).clientBank i = ws.clientBank i := by
    intro i hwithin hclear
    apply setClient_of_ne
    rintro rfl
    rw [hwithin i hcopy] at hclear
    cases hclear
  cases pc with
  | addSearch | addReset => exact h.serve
  | addBuild req i steps =>
      refine ⟨h.1.serve, ?_⟩
      rw [hother i hhandler.1 hslot.1]
      exact h.2
  | waitFlag i value =>
      cases value with
      | false => trivial
      | true =>
          rw [AddFacts, hother i hhandler.1 h.2.2]
          exact ⟨h.1.serve, h.2⟩
  | loadBits i value =>
      cases value with
      | false => trivial
      | true =>
          rw [AddFacts, hother i (within_of_eq hhandler.2) h.2.2]
          exact ⟨h.1.serve, h.2⟩
  | storeBits i value bits =>
      cases value with
      | false => trivial
      | true =>
          rw [AddFacts, hother i (within_of_eq hhandler.2.1) h.2.2]
          exact ⟨h.1.serve, h.2⟩
  | idle | removeSearch | setFlag | waitAck | unsubscribe => trivial

theorem slotInv_dispatcher (hflag : FlagInv s) (hbank : BankInv s) (h : SlotInv s)
    (hmove : DispatcherMove s t) : SlotInv t := by
  obtain ⟨hadds, hdistinct⟩ := h
  cases hmove with
  | again | exit | seen | unseen | enter | skip | wrap => exact ⟨hadds, hdistinct⟩
  | take =>
      exact ⟨hadds, fun i j hi hj hid => hdistinct i j (inUse_take hi) (inUse_take hj) hid⟩
  | clear => exact ⟨by cases hpc : s.handler <;> rw [hpc] at hadds <;> exact hadds, hdistinct⟩
  | leave hpc =>
      obtain ⟨hhandler, hdispatcher⟩ := hflag
      rw [hpc] at hdispatcher
      refine ⟨addFacts_serve hadds hbank.slot hhandler hdispatcher, ?_⟩
      intro i j hi hj hid
      rw [id_serve, id_serve] at hid
      exact hdistinct i j hi hj hid

/-- `MessageHandler` has not found the client that it adds. -/
theorem slotInv_add (hbank : BankInv s) (h : SlotInv s) (hidle : s.handler = .idle)
    {req : SubscribeRequest} (hnew : s.workspace.clientExists req.clientId = none) :
    SlotInv { s with handler := .addSearch req 0 } := by
  refine ⟨?_, h.distinct⟩
  intro i hi
  have hsub := hbank.subscribed_iff i (by rw [hidle]; exact id)
  exact clientExists_eq_none.mp hnew i (hsub.trans hi)

end ClientBankHandoff

namespace TransposeServer

open Lib
open ClientBankHandoff hiding State
open RequestCycle (State ServerInv)

variable {uninitialized : Int32} {s t : State}

theorem slotInv_step {a : Action} (hserver : ServerInv s) (h : SlotInv s.server)
    (hstep : step uninitialized s a = some t) : SlotInv t.server := by
  cases move_of_step hstep with
  | ignored => exact h
  | add hidle _ hnew => exact slotInv_add hserver.bank h hidle hnew
  | remove | stop => exact ⟨by first | trivial | exact h.adds, h.distinct⟩
  | handler hhandler =>
      exact slotInv_handler hserver.flag hserver.bank h (handlerMove_of_step hhandler)
  | dispatcher hdispatcher =>
      cases RequestCycle.move_of_step hdispatcher with
      | serve => exact h
      | leave _ _ hmove | scan _ hmove =>
          exact slotInv_dispatcher hserver.flag hserver.bank h (dispatcherMove_of_step hmove)
      | handle ha => exact absurd rfl (ha _)
  | client hclient =>
      obtain ⟨c, -, rfl⟩ := Option.map_eq_some_iff.mp hclient
      exact h
  | interrupt hinterrupt =>
      obtain ⟨futex, -, rfl⟩ := Option.map_eq_some_iff.mp hinterrupt
      exact h

theorem slotInv_of_reachable (h : (machine uninitialized).Reachable s) : SlotInv s.server := by
  refine (Machine.Reachable.invariant (I := fun s => ServerInv s ∧ SlotInv s.server) ?_ ?_ h).2
  · rintro s ⟨serverPid, k, requestRepetitions, rfl⟩
    refine ⟨RequestCycle.serverInv_initial, trivial, ?_⟩
    intro i j hi
    simp [InUse, RequestCycle.initial, ClientBankHandoff.initial, ServerWorkspace.initial] at hi
  · rintro s a t ⟨hserver, hslot⟩ hstep
    exact ⟨serverInv_step hserver hstep, slotInv_step hserver hslot hstep⟩

end TransposeServer

end MatrixTransposer
