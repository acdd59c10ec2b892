import MatrixTransposer.Proof.RequestCount
import MatrixTransposer.Proof.RequestProgress

/-!
# From a subscription to its end

Whom the handler is adding, who is in the bank, and that a subscribed client stays so until the
handler is told to remove it.
-/

namespace MatrixTransposer

open Lib

namespace ClientBankHandoff

open ServerWorkspace

variable {uninitialized : Int32} {ws ws' : ServerWorkspace} {s t : State} {pc pc' : HandlerPc}
  {pid : UInt32} {slot : Fin maxClients} {copy : UInt64}

/-- The client that the running call of `AddClient` is for. -/
def HandlerPc.addsFor (ws : ServerWorkspace) : HandlerPc → Option UInt32
  | .addSearch req _ | .addReset req _ | .addBuild req _ _ => some req.clientId
  | .waitFlag slot true | .loadBits slot true | .storeBits slot true _ | .setFlag slot true =>
      some (ws.clientBank slot).id
  | _ => none

theorem addsFor_of_move (hmove : HandlerMove uninitialized ws pc ws' pc') (hslot : SlotFacts ws pc) :
    pc'.addsFor ws' = pc.addsFor ws ∨ pc'.addsFor ws' = none := by
  cases hmove with
  | taken | free | unassigned | reset | ran => exact Or.inl rfl
  | built =>
      obtain ⟨-, before, hsteps, hprogress⟩ := hslot
      rw [List.append_nil] at hsteps
      rw [hsteps] at hprogress
      exact Or.inl (congrArg some (complete_of_progress hprogress).id)
  | @spin slot value => cases value <;> exact Or.inl rfl
  | @enter slot value => cases value <;> exact Or.inl rfl
  | @loadBits slot value => cases value <;> exact Or.inl rfl
  | @storeBits slot value bits => cases value <;> exact Or.inl rfl
  | thrown | added | removed | other | found | removing | spinAck | acked => exact Or.inr rfl

theorem addsFor_serve {stats : ClientStats} :
    pc.addsFor (serve ws slot stats) = pc.addsFor ws := by
  cases pc with
  | waitFlag i value | loadBits i value | storeBits i value bits | setFlag i value =>
      cases value with
      | false => rfl
      | true => exact congrArg some id_serve
  | idle | addSearch | addReset | addBuild | removeSearch | waitAck | unsubscribe => rfl

theorem addsFor_scan (huse : ∀ slot, s.dispatcher ≠ .use slot) (hmove : DispatcherMove s t) :
    t.handler.addsFor t.workspace = s.handler.addsFor s.workspace := by
  cases hmove with
  | again | exit | seen | unseen | take | enter | skip | wrap => rfl
  | clear =>
      cases hpc : s.handler with
      | waitFlag i value | loadBits i value | storeBits i value bits | setFlag i value =>
          cases value <;> rfl
      | idle | addSearch | addReset | addBuild | removeSearch | waitAck | unsubscribe => rfl
  | leave hpc => exact absurd hpc (huse _)

theorem removesOther_scan (h : RemovesOther pid s.workspace s.handler)
    (huse : ∀ slot, s.dispatcher ≠ .use slot) (hmove : DispatcherMove s t) :
    RemovesOther pid t.workspace t.handler := by
  cases hmove with
  | again | exit | seen | unseen | take | enter | skip | wrap => exact h
  | clear =>
      cases hpc : s.handler <;> rw [hpc] at h <;> exact h
  | leave hpc => exact absurd hpc (huse _)

/-- The client has a slot that the dispatcher uses, or will use. -/
def Present (ws : ServerWorkspace) (copy : UInt64) (pid : UInt32) : Prop :=
  ∃ slot, InUse ws copy slot ∧ (ws.clientBank slot).id = pid

theorem present_of_move (hmove : HandlerMove uninitialized ws pc ws' pc') (hslot : SlotFacts ws pc)
    (hhandler : HandlerFacts ws copy pc) (h : Present ws' copy pid) :
    Present ws copy pid ∨ pc.addsFor ws = some pid := by
  obtain ⟨i, hi, hid⟩ := h
  rcases inUse_of_move hmove hhandler hi with hold | ⟨bits, rfl, -, hbank⟩
  · rw [clientBank_of_inUse hmove hslot hhandler hold] at hid
    exact Or.inl ⟨i, hold, hid⟩
  · rw [hbank] at hid
    exact Or.inr (congrArg some hid)

theorem present_dispatcher (hmove : DispatcherMove s t)
    (h : Present t.workspace t.localValidClientsBitSet pid) :
    Present s.workspace s.localValidClientsBitSet pid := by
  obtain ⟨i, hi, hid⟩ := h
  cases hmove with
  | again | exit | seen | unseen | enter | skip | wrap | clear => exact ⟨i, hi, hid⟩
  | take => exact ⟨i, inUse_take hi, hid⟩
  | leave => exact ⟨i, hi, id_serve.symm.trans hid⟩

end ClientBankHandoff

namespace TransposeServer

open ClientBankHandoff (AddFacts HandlerPc RemovesOther Present SlotInv)
open RequestCycle (State ServerInv Subscribed)

variable {uninitialized : Int32} {c c' : State} {pid : UInt32} {slot : Fin maxClients}

/-- The client that is being added. -/
def adding (c : State) : Option UInt32 := c.server.handler.addsFor c.server.workspace

/-- The client that is being removed, if there is one, is not this one. -/
def SparesClient (pid : UInt32) (c : State) : Prop :=
  RemovesOther pid c.server.workspace c.server.handler

def HasSlot (pid : UInt32) (c : State) : Prop :=
  Present c.server.workspace c.server.localValidClientsBitSet pid

/-- The dispatcher's step on the server's data. -/
theorem server_of_dispatcher {times : Option (UInt64 × UInt64)}
    (hstep : RequestCycle.step uninitialized c (.server (.dispatcher times)) = some c') :
    c'.server = c.server ∨
      (∃ slot stats, c.server.dispatcher = .use slot ∧
        c'.server = { c.server with
          workspace := ClientBankHandoff.serve c.server.workspace slot stats
          dispatcher := .scan (slot.val + 1) }) ∨
      (∀ slot, c.server.dispatcher ≠ .use slot) ∧
        ClientBankHandoff.DispatcherMove c.server c'.server := by
  cases RequestCycle.move_of_step hstep with
  | serve => exact Or.inl rfl
  | leave huse _ hdispatcher =>
      obtain ⟨stats, rfl⟩ := (ClientBankHandoff.dispatcherMove_of_step hdispatcher).eq_of_use huse
      exact Or.inr (Or.inl ⟨_, stats, huse, rfl⟩)
  | scan huse hdispatcher =>
      exact Or.inr (Or.inr ⟨huse, ClientBankHandoff.dispatcherMove_of_step hdispatcher⟩)
  | handle ha => exact absurd rfl (ha times)

theorem server_of_client {p : UInt32}
    (hstep : RequestCycle.step uninitialized c (.client p) = some c') : c'.server = c.server := by
  cases RequestCycle.move_of_step hstep with
  | client => rfl

theorem server_of_interrupt {p : UInt32}
    (hstep : RequestCycle.step uninitialized c (.interrupt p) = some c') :
    c'.server = c.server := by
  cases RequestCycle.move_of_step hstep with
  | interrupt => rfl

/-- The handler adds a client only when it has been given its subscription. -/
theorem adding_step {a : Action} (hserver : ServerInv c)
    (hstep : step uninitialized c a = some c') :
    adding c' = adding c ∨ adding c' = none ∨
      ∃ context message, a = .server (.message context message) ∧ message.type = .subscribe ∧
        c.server.handler = .idle ∧ adding c' = some message.senderId := by
  cases move_of_step hstep with
  | ignored => exact Or.inl rfl
  | @add context message req hidle hid =>
      refine Or.inr (Or.inr ⟨context, message, rfl, ?_, hidle, congrArg some hid⟩)
      simp only [step, serverStep, hidle] at hstep
      by_contra htype
      split at hstep
      case h_1 =>
        have hhandler := congrArg (fun c => c.server.handler) (Option.some.inj hstep)
        rw [hidle] at hhandler
        cases hhandler
      case h_2 call hcall =>
        unfold messageCall at hcall
        cases hmessage : message.type with
        | subscribe => exact htype hmessage
        | unsubscribe =>
            simp only [hmessage, ClientServerMessage.processUnsubscribeMessage, ne_eq,
              not_true_eq_false, if_false] at hcall
            obtain ⟨slot, -, rfl⟩ := Option.map_eq_some_iff.mp hcall
            obtain ⟨server, hremove, heq⟩ := Option.map_eq_some_iff.mp hstep
            cases ClientBankHandoff.move_of_step hremove with
            | remove =>
                have hhandler := congrArg (fun c => c.server.handler) heq
                cases hhandler
        | subscribeResponse | unknown =>
            simp only [hmessage] at hcall
            cases hcall
  | remove => exact Or.inr (Or.inl rfl)
  | handler hhandler =>
      have hmove := ClientBankHandoff.handlerMove_of_step hhandler
      exact (ClientBankHandoff.addsFor_of_move hmove hserver.bank.slot).imp_right Or.inl
  | dispatcher hdispatcher =>
      left
      unfold adding
      rcases server_of_dispatcher hdispatcher with heq | ⟨slot, stats, -, heq⟩ | ⟨huse, hmove⟩
      · rw [heq]
      · rw [heq]
        exact ClientBankHandoff.addsFor_serve
      · exact ClientBankHandoff.addsFor_scan huse hmove
  | stop => exact Or.inl rfl
  | client hclient => exact Or.inl (by rw [adding, adding, server_of_client hclient])
  | interrupt hinterrupt => exact Or.inl (by rw [adding, adding, server_of_interrupt hinterrupt])

theorem sparesClient_step {a : Action} (h : SparesClient pid c)
    (ha : ∀ context message, a = .server (.message context message) →
      ¬ (message.type = .unsubscribe ∧ message.senderId = pid))
    (hstep : step uninitialized c a = some c') : SparesClient pid c' := by
  unfold SparesClient at h ⊢
  cases move_of_step hstep with
  | ignored => exact h
  | add => trivial
  | @remove context message slot _ htype hexists =>
      obtain ⟨⟨-, hid⟩, -⟩ := ServerWorkspace.clientExists_eq_some.mp hexists
      exact ⟨fun hpid => ha context message rfl ⟨htype, hpid⟩, slot, Nat.zero_le _, hid⟩
  | handler hhandler => exact ClientBankHandoff.removesOther_of_step h hhandler
  | dispatcher hdispatcher =>
      rcases server_of_dispatcher hdispatcher with heq | ⟨slot, stats, -, heq⟩ | ⟨huse, hmove⟩
      · rwa [heq]
      · rw [heq]
        exact h.serve
      · exact ClientBankHandoff.removesOther_scan h huse hmove
  | stop => exact h
  | client hclient => rwa [server_of_client hclient]
  | interrupt hinterrupt => rwa [server_of_interrupt hinterrupt]

theorem hasSlot_step {a : Action} (hserver : ServerInv c)
    (hstep : step uninitialized c a = some c') (h : HasSlot pid c') :
    HasSlot pid c ∨ adding c = some pid := by
  unfold HasSlot at h ⊢
  cases move_of_step hstep with
  | ignored | add | remove | stop => exact Or.inl h
  | handler hhandler =>
      exact ClientBankHandoff.present_of_move (ClientBankHandoff.handlerMove_of_step hhandler)
        hserver.bank.slot hserver.flag.1 h
  | dispatcher hdispatcher =>
      left
      rcases server_of_dispatcher hdispatcher with heq | ⟨slot, stats, -, heq⟩ | ⟨-, hmove⟩
      · rwa [heq] at h
      · rw [heq] at h
        obtain ⟨i, hi, hid⟩ := h
        exact ⟨i, hi, ClientBankHandoff.id_serve.symm.trans hid⟩
      · exact ClientBankHandoff.present_dispatcher hmove h
  | client hclient => exact Or.inl (server_of_client hclient ▸ h)
  | interrupt hinterrupt => exact Or.inl (server_of_interrupt hinterrupt ▸ h)

/-- A subscribed client stays so while it is not the one that is removed. -/
theorem subscribed_step {a : Action} (hserver : ServerInv c) (hslots : SlotInv c.server)
    (hspares : SparesClient pid c) (h : Subscribed pid slot c)
    (hstep : step uninitialized c a = some c') : Subscribed pid slot c' := by
  cases move_of_step hstep with
  | ignored => exact h
  | add | remove => exact ⟨h.bit, h.id, by simp⟩
  | stop => exact ⟨h.bit, h.id, h.announced⟩
  | @handler throws ws pc hhandler =>
      have hmove := ClientBankHandoff.handlerMove_of_step hhandler
      have hbank := ClientBankHandoff.clientBank_of_inUse hmove hserver.bank.slot hserver.flag.1
        (Or.inl h.bit)
      refine ⟨ClientBankHandoff.valid_of_move hmove hserver.flag.1 hspares h.id h.bit, ?_, ?_⟩
      · rw [← h.id]
        exact congrArg ClientContext.id hbank
      · -- the slot that is announced next was clear
        rintro rfl
        have hadds := hslots.adds
        generalize c.server.handler = before at hmove hadds
        cases hmove with
        | storeBits =>
            have hclear := hadds.2.2
            rw [h.bit] at hclear
            cases hclear
  | dispatcher hdispatcher => exact h.dispatcher hdispatcher
  | client hclient =>
      have hsame := server_of_client hclient
      exact ⟨hsame ▸ h.bit, hsame ▸ h.id, hsame ▸ h.announced⟩
  | interrupt hinterrupt =>
      have hsame := server_of_interrupt hinterrupt
      exact ⟨hsame ▸ h.bit, hsame ▸ h.id, hsame ▸ h.announced⟩

/-- `AddClient` returns true: the client is subscribed. -/
theorem subscribed_of_added {throws : Bool} (hserver : ServerInv c)
    (hpc : c.server.handler = .setFlag slot true)
    (hstep : step uninitialized c (.server (.handler throws)) = some c') :
    Subscribed (c.server.workspace.clientBank slot).id slot c' := by
  have hfacts := hserver.flag.1
  cases move_of_step hstep with
  | handler hhandler =>
      rw [hpc] at hhandler hfacts
      cases hhandler
      refine ⟨?_, rfl, by simp⟩
      change getBit c.server.workspace.validClientsBitSet slot = true
      rw [hfacts.2, getBit_setBit _ slot.isLt slot.isLt, if_pos rfl]

end TransposeServer

end MatrixTransposer
