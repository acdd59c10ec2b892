import MatrixTransposer.Proof.SubscribedClients

/-!
# The slot of a client that leaves

`RemoveClient` takes the first slot that bears the client's id, whether it is in use or not. As long
as the client has been added only once no other slot bears its id, so this is the client's slot, and
when the call returns nothing of the client is left.
-/

namespace MatrixTransposer

open Lib

/-- A statement of the `try` block leaves the id as it is or sets it. -/
theorem BuildStep.id_run_cases {req : SubscribeRequest} {ctx ctx' : ClientContext} {s : BuildStep}
    {fails : Bool} (h : s.run req fails ctx = some ctx') :
    ctx'.id = ctx.id ∨ ctx'.id = req.clientId := by
  have h := BuildStep.run_of_fails h
  cases s with
  | pushMatrixBuffer | pushMatrixBufferTr =>
      obtain ⟨buffer, -, rfl⟩ := Option.map_eq_some_iff.mp h
      exact Or.inl rfl
  | setId =>
      cases h
      exact Or.inr rfl
  | _ =>
      cases h
      exact Or.inl rfl

theorem id_progress {req : SubscribeRequest} {steps : List BuildStep} {ctx ctx' : ClientContext}
    (h : progress req steps ctx = some ctx') : ctx'.id = ctx.id ∨ ctx'.id = req.clientId := by
  induction steps generalizing ctx with
  | nil =>
      cases h
      exact Or.inl rfl
  | cons s steps ih =>
      rw [progress_cons] at h
      obtain ⟨mid, hrun, hrest⟩ := Option.bind_eq_some_iff.mp h
      rcases ih hrest with hid | hid
      · rw [hid]
        exact BuildStep.id_run_cases hrun
      · exact Or.inr hid

theorem eq_zero_of_getBit {bits : UInt64} (h : ∀ i : Fin maxClients, getBit bits i = false) :
    bits = 0 := by
  rw [← UInt64.toNat_inj, UInt64.toNat_zero]
  apply Nat.eq_of_testBit_eq
  intro i
  rw [Nat.zero_testBit]
  by_cases hi : i < maxClients
  · rw [← getBit_eq_testBit bits hi]
    exact h ⟨i, hi⟩
  · apply Nat.testBit_lt_two_pow
    apply bits.toNat_lt.trans_le
    exact Nat.pow_le_pow_right (by decide) (Nat.le_of_not_lt hi)

namespace ClientBankHandoff

open ServerWorkspace

variable {uninitialized : Int32} {ws ws' : ServerWorkspace} {s t : State} {pc pc' : HandlerPc}
  {pid : UInt32} {slot : Fin maxClients} {copy : UInt64} {throws : Bool}

/-! ## Who bears the client's id -/

def Unnamed (pid : UInt32) (ws : ServerWorkspace) : Prop :=
  ∀ slot, (ws.clientBank slot).id ≠ pid

/-- The slot that is given the client's id is the first to bear it. -/
def NameFacts (pid : UInt32) (ws : ServerWorkspace) : HandlerPc → Prop
  | .addSearch req _ | .addReset req _ => req.clientId = pid → Unnamed pid ws
  | .addBuild req slot _ => req.clientId = pid → ∀ i, i ≠ slot → (ws.clientBank i).id ≠ pid
  | _ => True

structure Sole (pid : UInt32) (ws : ServerWorkspace) (pc : HandlerPc) : Prop where
  names : NameFacts pid ws pc
  unique : ∀ i j, (ws.clientBank i).id = pid → (ws.clientBank j).id = pid → i = j

theorem Unnamed.sole (h : Unnamed pid ws) (pc : HandlerPc) : Sole pid ws pc := by
  refine ⟨?_, fun i _ hi => absurd hi (h i)⟩
  cases pc with
  | addSearch | addReset => exact fun _ => h
  | addBuild => exact fun _ i _ => h i
  | _ => trivial

/-- The id of a slot after a step of the handler. -/
theorem id_of_move (hpid : pid ≠ 0) (hmove : HandlerMove uninitialized ws pc ws' pc')
    {i : Fin maxClients} (hid : (ws'.clientBank i).id = pid) :
    (ws.clientBank i).id = pid ∨
      ∃ req steps, pc = .addBuild req i steps ∧ req.clientId = pid := by
  cases hmove with
  | @reset req slot =>
      by_cases heq : i = slot
      · subst heq
        rw [setClient_self] at hid
        exact absurd hid.symm hpid
      · rw [setClient_of_ne _ heq] at hid
        exact Or.inl hid
  | @ran req slot step steps ctx hrun =>
      by_cases heq : i = slot
      · subst heq
        rw [setClient_self] at hid
        rcases BuildStep.id_run_cases hrun with hsame | hset
        · exact Or.inl (hsame ▸ hid)
        · exact Or.inr ⟨req, _, rfl, hset.symm.trans hid⟩
      · rw [setClient_of_ne _ heq] at hid
        exact Or.inl hid
  | @removed slot =>
      by_cases heq : i = slot
      · subst heq
        rw [setClient_self] at hid
        exact Or.inl hid
      · rw [setClient_of_ne _ heq] at hid
        exact Or.inl hid
  | taken | free | unassigned | built | thrown | other | found | spin | enter | loadBits
  | storeBits | added | removing | spinAck | acked => exact Or.inl hid

theorem unnamed_of_move (hpid : pid ≠ 0) (hmove : HandlerMove uninitialized ws pc ws' pc')
    (hadds : pc.addsFor ws ≠ some pid) (h : Unnamed pid ws) : Unnamed pid ws' := by
  intro i hi
  rcases id_of_move hpid hmove hi with hid | ⟨req, steps, rfl, hreq⟩
  · exact h i hid
  · exact hadds (congrArg some hreq)

theorem sole_of_move (hpid : pid ≠ 0) (hmove : HandlerMove uninitialized ws pc ws' pc')
    (h : Sole pid ws pc) : Sole pid ws' pc' := by
  have hid : ∀ {i}, (ws'.clientBank i).id = pid → (ws.clientBank i).id = pid ∨
      ∃ req steps, pc = .addBuild req i steps ∧ req.clientId = pid := id_of_move hpid hmove
  refine ⟨?_, ?_⟩
  · have hnames := h.names
    cases hmove with
    | taken | free | unassigned => exact hnames
    | reset =>
        intro hreq i hi
        rw [setClient_of_ne _ hi]
        exact hnames hreq i
    | ran =>
        intro hreq i hi
        rw [setClient_of_ne _ hi]
        exact hnames hreq i hi
    | built | thrown | other | found | spin | enter | loadBits | storeBits | added | removing
    | spinAck | acked | removed => trivial
  · intro i j hi hj
    rcases hid hi with hi | ⟨req, steps, rfl, hreq⟩
    · rcases hid hj with hj | ⟨req, steps, rfl, hreq⟩
      · exact h.unique i j hi hj
      · by_contra hne
        exact h.names hreq i hne hi
    · rcases hid hj with hj | ⟨req', steps', hpc, -⟩
      · by_contra hne
        exact h.names hreq j (Ne.symm hne) hj
      · cases hpc
        rfl

/-! ## What is left of a client -/

/-- No slot of the client is in use, nor will be, and none is marked subscribed. -/
def Gone (pid : UInt32) (ws : ServerWorkspace) (copy : UInt64) : Prop :=
  ∀ slot, (ws.clientBank slot).id = pid →
    ¬ InUse ws copy slot ∧ (ws.clientBank slot).subscribed = false

theorem Unnamed.gone (h : Unnamed pid ws) : Gone pid ws copy := fun slot hid => absurd hid (h slot)

theorem gone_of_move (hpid : pid ≠ 0) (hmove : HandlerMove uninitialized ws pc ws' pc')
    (hslot : SlotFacts ws pc) (hhandler : HandlerFacts ws copy pc)
    (hadds : pc.addsFor ws ≠ some pid) (h : Gone pid ws copy) : Gone pid ws' copy := by
  intro i hid
  have hbefore : (ws.clientBank i).id = pid := by
    rcases id_of_move hpid hmove hid with hold | ⟨req, steps, rfl, hreq⟩
    · exact hold
    · exact absurd (congrArg some hreq) hadds
  obtain ⟨hfree, hsubscribed⟩ := h i hbefore
  refine ⟨?_, ?_⟩
  · intro hin
    rcases inUse_of_move hmove hhandler hin with hold | ⟨bits, rfl, -⟩
    · exact hfree hold
    · exact hadds (congrArg some hbefore)
  · cases hmove with
    | @reset req slot =>
        by_cases heq : i = slot
        · subst heq
          rw [setClient_self]
          rfl
        · rwa [setClient_of_ne _ heq]
    | @ran req slot step steps ctx hrun =>
        by_cases heq : i = slot
        · -- the context of a client that is being added does not bear another one's id
          subst heq
          obtain ⟨-, before, -, hprogress⟩ := hslot
          rcases id_progress hprogress with hzero | hreq
          · exact absurd (hbefore.symm.trans hzero) hpid
          · exact absurd (congrArg some (hreq.symm.trans hbefore)) hadds
        · rwa [setClient_of_ne _ heq]
    | @removed slot =>
        by_cases heq : i = slot
        · subst heq
          rw [setClient_self]
        · rwa [setClient_of_ne _ heq]
    | taken | free | unassigned | built | thrown | other | found | spin | enter | loadBits
    | storeBits | added | removing | spinAck | acked => exact hsubscribed

/-! ## The call of `RemoveClient` -/

/-- The client that the running call of `RemoveClient` is for. -/
def HandlerPc.removesFor (ws : ServerWorkspace) : HandlerPc → Option UInt32
  | .removeSearch clientId _ => some clientId
  | .waitFlag slot false | .loadBits slot false | .storeBits slot false _ | .setFlag slot false
  | .waitAck slot | .unsubscribe slot => some (ws.clientBank slot).id
  | _ => none

/-- The search has not passed the client's slot. -/
def Ahead (pid : UInt32) (ws : ServerWorkspace) : HandlerPc → Prop
  | .removeSearch _ i => ∃ slot : Fin maxClients, i ≤ slot.val ∧ (ws.clientBank slot).id = pid
  | _ => True

/-- The call removes the client, or has nothing left to do for it. -/
theorem removal_of_step (hsole : Sole pid ws pc) (hhandler : HandlerFacts ws copy pc)
    (hremoves : pc.removesFor ws = some pid) (hahead : Ahead pid ws pc)
    (hstep : handlerStep uninitialized ws throws pc = some (ws', pc')) :
    pc'.removesFor ws' = some pid ∧ Ahead pid ws' pc' ∨ Gone pid ws' copy := by
  cases pc with
  | removeSearch clientId i =>
      obtain rfl := Option.some.inj hremoves
      obtain ⟨slot, hle, hid⟩ := hahead
      simp only [handlerStep] at hstep
      split at hstep
      case isTrue hi =>
        split at hstep
        case isTrue hfound =>
          cases hstep
          exact Or.inl ⟨congrArg some hfound, trivial⟩
        case isFalse hother =>
          cases hstep
          refine Or.inl ⟨rfl, slot, Nat.lt_of_le_of_ne hle ?_, hid⟩
          rintro rfl
          exact hother hid
      case isFalse hi => exact absurd (Nat.lt_of_le_of_lt hle slot.isLt) hi
  | unsubscribe slot =>
      cases hstep
      obtain ⟨hclear, -, hcopy⟩ := hhandler
      have hid := Option.some.inj hremoves
      right
      intro i hi
      have heq : i = slot := by
        apply hsole.unique i slot _ hid
        by_cases heq : i = slot
        · rw [heq]
          exact hid
        · rwa [setClient_of_ne _ heq] at hi
      subst heq
      refine ⟨?_, by rw [setClient_self]⟩
      rintro (hvalid | hin)
      · cases hclear.symm.trans hvalid
      · rw [hcopy] at hin
        cases hclear.symm.trans hin
  | waitFlag slot value | loadBits slot value | storeBits slot value | setFlag slot value =>
      cases value with
      | true => cases hremoves
      | false =>
          left
          cases handlerMove_of_step hstep <;> exact ⟨hremoves, trivial⟩
  | waitAck slot =>
      left
      cases handlerMove_of_step hstep <;> exact ⟨hremoves, trivial⟩
  | idle | addSearch | addReset | addBuild => cases hremoves

theorem gone_serve {stats : ClientStats} (h : Gone pid ws copy) :
    Gone pid (serve ws slot stats) copy := by
  intro i hid
  obtain ⟨hfree, hsubscribed⟩ := h i (id_serve.symm.trans hid)
  exact ⟨hfree, subscribed_serve.trans hsubscribed⟩

theorem gone_dispatcher (hmove : DispatcherMove s t)
    (h : Gone pid s.workspace s.localValidClientsBitSet) :
    Gone pid t.workspace t.localValidClientsBitSet := by
  cases hmove with
  | again | exit | seen | unseen | enter | skip | wrap | clear => exact h
  | take =>
      intro i hid
      obtain ⟨hfree, hsubscribed⟩ := h i hid
      exact ⟨fun hin => hfree (inUse_take hin), hsubscribed⟩
  | leave => exact gone_serve h

/-- The dispatcher changes no id. -/
theorem id_dispatcher (hmove : DispatcherMove s t) (i : Fin maxClients) :
    (t.workspace.clientBank i).id = (s.workspace.clientBank i).id := by
  cases hmove with
  | again | exit | seen | unseen | take | clear | enter | skip | wrap => rfl
  | leave => exact id_serve

theorem handler_dispatcher (hmove : DispatcherMove s t) : t.handler = s.handler := by
  cases hmove <;> rfl

section SameIds

variable (hid : ∀ i, (ws'.clientBank i).id = (ws.clientBank i).id)
include hid

theorem Unnamed.of_ids (h : Unnamed pid ws) : Unnamed pid ws' := by
  intro i
  rw [hid]
  exact h i

theorem Sole.of_ids (h : Sole pid ws pc) : Sole pid ws' pc := by
  obtain ⟨hnames, hunique⟩ := h
  refine ⟨?_, ?_⟩
  · cases pc with
    | addSearch | addReset => exact fun hreq => (hnames hreq).of_ids hid
    | addBuild =>
        intro hreq i hi
        rw [hid]
        exact hnames hreq i hi
    | _ => trivial
  · intro i j hi hj
    rw [hid] at hi hj
    exact hunique i j hi hj

theorem removesFor_of_ids : pc.removesFor ws' = pc.removesFor ws := by
  cases pc with
  | waitFlag i value | loadBits i value | storeBits i value bits | setFlag i value =>
      cases value with
      | true => rfl
      | false => exact congrArg some (hid i)
  | waitAck i | unsubscribe i => exact congrArg some (hid i)
  | idle | addSearch | addReset | addBuild | removeSearch => rfl

theorem Ahead.of_ids (h : Ahead pid ws pc) : Ahead pid ws' pc := by
  cases pc with
  | removeSearch clientId i =>
      obtain ⟨slot, hle, hslot⟩ := h
      exact ⟨slot, hle, (hid slot).trans hslot⟩
  | _ => trivial

end SameIds

end ClientBankHandoff

namespace TransposeServer

open ClientBankHandoff (Ahead Gone Sole Unnamed)
open RequestCycle (State ServerInv Subscribed)

variable {uninitialized : Int32} {c c' : State} {pid : UInt32} {slot : Fin maxClients}

/-- The client that is being removed. -/
def removing (c : State) : Option UInt32 := c.server.handler.removesFor c.server.workspace

def Nameless (pid : UInt32) (c : State) : Prop := Unnamed pid c.server.workspace

def SoleName (pid : UInt32) (c : State) : Prop := Sole pid c.server.workspace c.server.handler

/-- The server keeps nothing of the client. -/
def Forgotten (pid : UInt32) (c : State) : Prop :=
  Gone pid c.server.workspace c.server.localValidClientsBitSet

/-- The client is being removed, and will be found. -/
def BeingRemoved (pid : UInt32) (c : State) : Prop :=
  removing c = some pid ∧ Ahead pid c.server.workspace c.server.handler

/-- What a step of the dispatcher leaves as it is. -/
theorem ids_of_dispatcher {times : Option (UInt64 × UInt64)}
    (hstep : RequestCycle.step uninitialized c (.server (.dispatcher times)) = some c') :
    c'.server.handler = c.server.handler ∧
      ∀ i, (c'.server.workspace.clientBank i).id = (c.server.workspace.clientBank i).id := by
  rcases server_of_dispatcher hstep with heq | ⟨slot, stats, -, heq⟩ | ⟨-, hmove⟩
  · rw [heq]
    exact ⟨rfl, fun _ => rfl⟩
  · rw [heq]
    exact ⟨rfl, fun _ => ClientBankHandoff.id_serve⟩
  · exact ⟨ClientBankHandoff.handler_dispatcher hmove, ClientBankHandoff.id_dispatcher hmove⟩

theorem nameless_step {a : Action} (hpid : pid ≠ 0) (hadding : adding c ≠ some pid)
    (h : Nameless pid c) (hstep : step uninitialized c a = some c') : Nameless pid c' := by
  unfold Nameless at h ⊢
  cases move_of_step hstep with
  | ignored | add | remove | stop => exact h
  | handler hhandler =>
      exact ClientBankHandoff.unnamed_of_move hpid (ClientBankHandoff.handlerMove_of_step hhandler)
        hadding h
  | dispatcher hdispatcher => exact h.of_ids (ids_of_dispatcher hdispatcher).2
  | client hclient => rwa [server_of_client hclient]
  | interrupt hinterrupt => rwa [server_of_interrupt hinterrupt]

/-- The client's id stays that of one slot, given that the client is not added a second time. -/
theorem soleName_step {a : Action} (hpid : pid ≠ 0)
    (hfresh : adding c = none → adding c' = some pid → Nameless pid c) (h : SoleName pid c)
    (hstep : step uninitialized c a = some c') : SoleName pid c' := by
  unfold SoleName at h ⊢
  cases move_of_step hstep with
  | ignored | stop => exact h
  | add hidle =>
      refine ⟨?_, h.unique⟩
      intro hreq
      apply hfresh
      · rw [adding, hidle]
        rfl
      · exact congrArg some hreq
  | remove => exact ⟨trivial, h.unique⟩
  | handler hhandler =>
      exact ClientBankHandoff.sole_of_move hpid (ClientBankHandoff.handlerMove_of_step hhandler) h
  | dispatcher hdispatcher =>
      obtain ⟨hhandler, hid⟩ := ids_of_dispatcher hdispatcher
      rw [hhandler]
      exact h.of_ids hid
  | client hclient => rwa [server_of_client hclient]
  | interrupt hinterrupt => rwa [server_of_interrupt hinterrupt]

theorem forgotten_step {a : Action} (hpid : pid ≠ 0) (hserver : ServerInv c)
    (hadding : adding c ≠ some pid) (h : Forgotten pid c)
    (hstep : step uninitialized c a = some c') : Forgotten pid c' := by
  unfold Forgotten at h ⊢
  cases move_of_step hstep with
  | ignored | add | remove | stop => exact h
  | handler hhandler =>
      exact ClientBankHandoff.gone_of_move hpid (ClientBankHandoff.handlerMove_of_step hhandler)
        hserver.bank.slot hserver.flag.1 hadding h
  | dispatcher hdispatcher =>
      rcases server_of_dispatcher hdispatcher with heq | ⟨slot, stats, -, heq⟩ | ⟨-, hmove⟩
      · rwa [heq]
      · rw [heq]
        exact ClientBankHandoff.gone_serve h
      · exact ClientBankHandoff.gone_dispatcher hmove h
  | client hclient => rwa [server_of_client hclient]
  | interrupt hinterrupt => rwa [server_of_interrupt hinterrupt]

/-- Every call of `RemoveClient` ends with nothing left of the client. -/
theorem beingRemoved_step {a : Action} (hserver : ServerInv c) (hsole : SoleName pid c)
    (h : BeingRemoved pid c) (hstep : step uninitialized c a = some c') :
    BeingRemoved pid c' ∨ Forgotten pid c' := by
  obtain ⟨hremoving, hahead⟩ := h
  unfold BeingRemoved removing at *
  cases move_of_step hstep with
  | ignored | stop => exact Or.inl ⟨hremoving, hahead⟩
  | add hidle | remove hidle =>
      rw [hidle] at hremoving
      cases hremoving
  | handler hhandler =>
      exact ClientBankHandoff.removal_of_step hsole hserver.flag.1 hremoving hahead hhandler
  | dispatcher hdispatcher =>
      obtain ⟨hhandler, hid⟩ := ids_of_dispatcher hdispatcher
      left
      rw [hhandler, ClientBankHandoff.removesFor_of_ids hid]
      exact ⟨hremoving, hahead.of_ids hid⟩
  | client hclient =>
      left
      rw [server_of_client hclient]
      exact ⟨hremoving, hahead⟩
  | interrupt hinterrupt =>
      left
      rw [server_of_interrupt hinterrupt]
      exact ⟨hremoving, hahead⟩

/-- The message of a subscribed client that leaves is a call of `RemoveClient`. -/
theorem beingRemoved_of_message {context : UnixSockIpcContext} {message : ClientServerMessage}
    (hserver : ServerInv c) (htype : message.type = .unsubscribe) (hid : message.senderId = pid)
    (hsubscribed : Subscribed pid slot c)
    (hstep : step uninitialized c (.server (.message context message)) = some c') :
    BeingRemoved pid c' := by
  have hexists : (c.server.handler = .idle) → c.server.workspace.clientExists pid ≠ none := by
    intro hidle hnone
    have hsub := hserver.bank.subscribed_iff slot (by rw [hidle]; exact id)
    exact ServerWorkspace.clientExists_eq_none.mp hnone slot (hsub.trans hsubscribed.bit)
      hsubscribed.id
  cases move_of_step hstep with
  | ignored hidle hcall =>
      simp only [messageCall, htype, ClientServerMessage.processUnsubscribeMessage, ne_eq,
        not_true_eq_false, if_false, Option.map_eq_none_iff, hid] at hcall
      exact absurd hcall (hexists hidle)
  | add hidle hsender hnew =>
      rw [hsender, hid] at hnew
      exact absurd hnew (hexists hidle)
  | remove =>
      exact ⟨congrArg some hid, slot, Nat.zero_le _, hsubscribed.id⟩

end TransposeServer

end MatrixTransposer
