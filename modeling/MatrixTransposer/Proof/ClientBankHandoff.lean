import MatrixTransposer.ClientBankHandoff
import MatrixTransposer.Proof.ClientBank

/-!
# The hand-over of the client bank

While the handler publishes, from finding the flag clear to raising it, the dispatcher's copy of the
bit set is current and stays so; while the dispatcher takes an update, from finding the flag set to
clearing it, the handler is not publishing. That is all the protocol there is. It keeps the copy
within the bit set except for the one slot whose removal waits to be acknowledged, and the handler
writes only slots that are in neither.
-/

namespace MatrixTransposer.ClientBankHandoff

open ServerWorkspace

variable {uninitialized : Int32} {ws ws' : ServerWorkspace} {s t : State} {pc pc' : HandlerPc}
  {throws : Bool}

/-! ## The steps of the handler -/

inductive HandlerMove (uninitialized : Int32) (ws : ServerWorkspace) :
    HandlerPc → ServerWorkspace → HandlerPc → Prop where
  | taken {req : SubscribeRequest} {i : Fin maxClients}
      (hbit : getBit ws.validClientsBitSet i = true) :
      HandlerMove uninitialized ws (.addSearch req i) ws (.addSearch req (i + 1))
  | free {req : SubscribeRequest} {slot : Fin maxClients}
      (hbit : getBit ws.validClientsBitSet slot = false) :
      HandlerMove uninitialized ws (.addSearch req slot) ws (.addReset req slot)
  | unassigned {req : SubscribeRequest} {i : Nat} {slot : Fin maxClients} (hi : maxClients ≤ i) :
      HandlerMove uninitialized ws (.addSearch req i) ws (.addReset req slot)
  | reset {req : SubscribeRequest} {slot : Fin maxClients} :
      HandlerMove uninitialized ws (.addReset req slot) (ws.setClient slot ClientContext.new)
        (.addBuild req slot (buildSteps req.k))
  | built {req : SubscribeRequest} {slot : Fin maxClients} :
      HandlerMove uninitialized ws (.addBuild req slot []) ws (.waitFlag slot true)
  | thrown {req : SubscribeRequest} {slot : Fin maxClients} {step : BuildStep}
      {steps : List BuildStep} :
      HandlerMove uninitialized ws (.addBuild req slot (step :: steps)) ws .idle
  | ran {req : SubscribeRequest} {slot : Fin maxClients} {step : BuildStep}
      {steps : List BuildStep} {ctx : ClientContext}
      (hrun : step.run req false (ws.clientBank slot) = some ctx) :
      HandlerMove uninitialized ws (.addBuild req slot (step :: steps)) (ws.setClient slot ctx)
        (.addBuild req slot steps)
  | other {clientId : UInt32} {i : Nat} :
      HandlerMove uninitialized ws (.removeSearch clientId i) ws (.removeSearch clientId (i + 1))
  | found {clientId : UInt32} {i : Nat} {slot : Fin maxClients} :
      HandlerMove uninitialized ws (.removeSearch clientId i) ws (.waitFlag slot false)
  | spin {slot : Fin maxClients} {value : Bool} :
      HandlerMove uninitialized ws (.waitFlag slot value) ws (.waitFlag slot value)
  | enter {slot : Fin maxClients} {value : Bool} (hflag : ws.clientBankUpdateAvailable = false) :
      HandlerMove uninitialized ws (.waitFlag slot value) ws (.loadBits slot value)
  | loadBits {slot : Fin maxClients} {value : Bool} :
      HandlerMove uninitialized ws (.loadBits slot value) ws
        (.storeBits slot value (setBit ws.validClientsBitSet slot value))
  | storeBits {slot : Fin maxClients} {value : Bool} {bits : UInt64} :
      HandlerMove uninitialized ws (.storeBits slot value bits)
        { ws with validClientsBitSet := bits } (.setFlag slot value)
  | added {slot : Fin maxClients} :
      HandlerMove uninitialized ws (.setFlag slot true)
        { ws with clientBankUpdateAvailable := true } .idle
  | removing {slot : Fin maxClients} :
      HandlerMove uninitialized ws (.setFlag slot false)
        { ws with clientBankUpdateAvailable := true } (.waitAck slot)
  | spinAck {slot : Fin maxClients} :
      HandlerMove uninitialized ws (.waitAck slot) ws (.waitAck slot)
  | acked {slot : Fin maxClients} (hflag : ws.clientBankUpdateAvailable = false) :
      HandlerMove uninitialized ws (.waitAck slot) ws (.unsubscribe slot)
  | removed {slot : Fin maxClients} :
      HandlerMove uninitialized ws (.unsubscribe slot)
        (ws.setClient slot { ws.clientBank slot with subscribed := false }) .idle

theorem handlerMove_of_step (h : handlerStep uninitialized ws throws pc = some (ws', pc')) :
    HandlerMove uninitialized ws pc ws' pc' := by
  cases pc with
  | idle => cases h
  | addSearch req i =>
      simp only [handlerStep] at h
      split at h
      case isTrue hi =>
        split at h
        case isTrue hbit =>
          cases h
          exact .taken (i := ⟨i, hi⟩) hbit
        case isFalse hbit =>
          cases h
          have hclear : getBit ws.validClientsBitSet (⟨i, hi⟩ : Fin maxClients) = false :=
            Bool.eq_false_of_not_eq_true hbit
          exact .free hclear
      case isFalse hi =>
        obtain ⟨slot, -, heq⟩ := Option.map_eq_some_iff.mp h
        cases heq
        exact .unassigned (Nat.le_of_not_lt hi)
  | addReset req slot =>
      cases h
      exact .reset
  | addBuild req slot steps =>
      cases steps with
      | nil =>
          cases h
          exact .built
      | cons step steps =>
          simp only [handlerStep] at h
          split at h
          case h_1 =>
            cases h
            exact .thrown
          case h_2 ctx hrun =>
            cases h
            exact .ran (BuildStep.run_of_fails hrun)
  | removeSearch clientId i =>
      simp only [handlerStep] at h
      split at h
      case isTrue =>
        split at h
        case isTrue =>
          cases h
          exact .found
        case isFalse =>
          cases h
          exact .other
      case isFalse =>
        cases h
        exact .found
  | waitFlag slot value =>
      cases hflag : ws.clientBankUpdateAvailable with
      | true =>
          simp only [handlerStep, hflag, if_true] at h
          cases h
          exact .spin
      | false =>
          simp only [handlerStep, hflag, Bool.false_eq_true, if_false] at h
          cases h
          exact .enter hflag
  | loadBits slot value =>
      cases h
      exact .loadBits
  | storeBits slot value bits =>
      cases h
      exact .storeBits
  | setFlag slot value =>
      cases value with
      | true =>
          cases h
          exact .added
      | false =>
          cases h
          exact .removing
  | waitAck slot =>
      cases hflag : ws.clientBankUpdateAvailable with
      | true =>
          simp only [handlerStep, hflag, if_true] at h
          cases h
          exact .spinAck
      | false =>
          simp only [handlerStep, hflag, Bool.false_eq_true, if_false] at h
          cases h
          exact .acked hflag
  | unsubscribe slot =>
      cases h
      exact .removed

/-! ## The steps of the dispatcher -/

/-- Serving a request changes the statistics of its client. -/
def serve (ws : ServerWorkspace) (slot : Fin maxClients) (stats : ClientStats) : ServerWorkspace :=
  ws.setClient slot { ws.clientBank slot with stats := stats }

inductive DispatcherMove (s : State) : State → Prop where
  | again (hpc : s.dispatcher = .loop) (hrunning : s.running = true) :
      DispatcherMove s { s with dispatcher := .loadFlag }
  | exit (hpc : s.dispatcher = .loop) (hrunning : s.running = false) :
      DispatcherMove s { s with dispatcher := .exited }
  | seen (hpc : s.dispatcher = .loadFlag) (hflag : s.workspace.clientBankUpdateAvailable = true) :
      DispatcherMove s { s with dispatcher := .loadBits }
  | unseen (hpc : s.dispatcher = .loadFlag)
      (hflag : s.workspace.clientBankUpdateAvailable = false) :
      DispatcherMove s { s with dispatcher := .scan 0 }
  | take (hpc : s.dispatcher = .loadBits) :
      DispatcherMove s
        { s with
          localValidClientsBitSet := s.workspace.validClientsBitSet
          dispatcher := .clearFlag }
  | clear (hpc : s.dispatcher = .clearFlag) :
      DispatcherMove s
        { s with
          workspace := { s.workspace with clientBankUpdateAvailable := false }
          dispatcher := .scan 0 }
  | enter {slot : Fin maxClients} (hpc : s.dispatcher = .scan slot)
      (hbit : getBit s.localValidClientsBitSet slot = true) :
      DispatcherMove s { s with dispatcher := .use slot }
  | skip {i : Nat} (hpc : s.dispatcher = .scan i) (hi : i < maxClients)
      (hbit : getBit s.localValidClientsBitSet i = false) :
      DispatcherMove s { s with dispatcher := .scan (i + 1) }
  | wrap {i : Nat} (hpc : s.dispatcher = .scan i) (hi : maxClients ≤ i) :
      DispatcherMove s { s with dispatcher := .loop }
  | leave {slot : Fin maxClients} {stats : ClientStats} (hpc : s.dispatcher = .use slot) :
      DispatcherMove s
        { s with
          workspace := serve s.workspace slot stats
          dispatcher := .scan (slot.val + 1) }

theorem dispatcherMove_of_step {served : Option (UInt64 × UInt64)}
    (h : dispatcherStep s served = some t) : DispatcherMove s t := by
  cases hpc : s.dispatcher with
  | loop =>
      simp only [dispatcherStep, hpc, Option.some.injEq] at h
      subst h
      split
      case isTrue hrunning => exact .again hpc hrunning
      case isFalse hrunning => exact .exit hpc (Bool.eq_false_of_not_eq_true hrunning)
  | loadFlag =>
      simp only [dispatcherStep, hpc, Option.some.injEq] at h
      subst h
      split
      case isTrue hflag => exact .seen hpc hflag
      case isFalse hflag => exact .unseen hpc (Bool.eq_false_of_not_eq_true hflag)
  | loadBits =>
      simp only [dispatcherStep, hpc, Option.some.injEq] at h
      exact h ▸ .take hpc
  | clearFlag =>
      simp only [dispatcherStep, hpc, Option.some.injEq] at h
      exact h ▸ .clear hpc
  | scan i =>
      simp only [dispatcherStep, hpc] at h
      split at h
      case isTrue hi =>
        split at h
        case isTrue hbit =>
          cases h
          let slot : Fin maxClients := ⟨i, hi⟩
          have hslot : getBit s.localValidClientsBitSet slot = true := hbit
          exact .enter hpc hslot
        case isFalse hbit =>
          cases h
          exact .skip hpc hi (Bool.eq_false_of_not_eq_true hbit)
      case isFalse hi =>
        cases h
        exact .wrap hpc (Nat.le_of_not_lt hi)
  | use slot =>
      simp only [dispatcherStep, hpc, Option.some.injEq] at h
      cases served with
      | none => exact h ▸ .leave hpc
      | some times => exact h ▸ .leave hpc
  | exited =>
      simp only [dispatcherStep, hpc] at h
      cases h

theorem DispatcherMove.eq_of_use {slot : Fin maxClients} (h : DispatcherMove s t)
    (huse : s.dispatcher = .use slot) :
    ∃ stats, t =
      { s with
        workspace := serve s.workspace slot stats
        dispatcher := .scan (slot.val + 1) } := by
  cases h with
  | leave hpc =>
      cases huse.symm.trans hpc
      exact ⟨_, rfl⟩
  | again hpc | exit hpc | seen hpc | unseen hpc | take hpc | clear hpc | enter hpc | skip hpc
  | wrap hpc => cases huse.symm.trans hpc

/-! ## The steps of the server -/

inductive Move (uninitialized : Int32) (s : State) : Action → State → Prop where
  | add {req : SubscribeRequest} (hidle : s.handler = .idle)
      (hroom : s.workspace.subscribedCount < maxClients) :
      Move uninitialized s (.add req) { s with handler := .addSearch req 0 }
  | remove {clientId : UInt32} (hidle : s.handler = .idle) :
      Move uninitialized s (.remove clientId) { s with handler := .removeSearch clientId 0 }
  | handler {throws : Bool} {ws' : ServerWorkspace} {pc' : HandlerPc}
      (hmove : HandlerMove uninitialized s.workspace s.handler ws' pc') :
      Move uninitialized s (.handler throws) { s with workspace := ws', handler := pc' }
  | dispatcher {served : Option (UInt64 × UInt64)} {t : State} (hmove : DispatcherMove s t) :
      Move uninitialized s (.dispatcher served) t
  | stop : Move uninitialized s .stop { s with running := false }

theorem move_of_step {a : Action} (h : step uninitialized s a = some t) :
    Move uninitialized s a t := by
  cases a with
  | add req =>
      cases hpc : s.handler with
      | idle =>
          simp only [step, hpc] at h
          obtain ⟨hroom, heq⟩ := Option.ite_none_right_eq_some.mp h
          exact Option.some.inj heq ▸ .add hpc hroom
      | _ => simp [step, hpc] at h
  | remove clientId =>
      cases hpc : s.handler with
      | idle =>
          simp only [step, hpc, Option.some.injEq] at h
          exact h ▸ .remove hpc
      | _ => simp [step, hpc] at h
  | handler throws =>
      obtain ⟨⟨ws', pc'⟩, hhandler, rfl⟩ := Option.map_eq_some_iff.mp h
      exact .handler (handlerMove_of_step hhandler)
  | dispatcher served => exact .dispatcher (dispatcherMove_of_step h)
  | stop =>
      cases h
      exact .stop

/-! ## The flag -/

/-- Every bit of the dispatcher's copy is set in the bit set. -/
def Within (bits valid : UInt64) : Prop :=
  ∀ i : Fin maxClients, getBit bits i = true → getBit valid i = true

theorem within_of_eq {bits valid : UInt64} (h : bits = valid) : Within bits valid := by
  intro i hi
  rwa [← h]

/-- What the handler knows about the flag and the dispatcher's copy. -/
def HandlerFacts (ws : ServerWorkspace) (copy : UInt64) : HandlerPc → Prop
  | .loadBits _ _ => ws.clientBankUpdateAvailable = false ∧ copy = ws.validClientsBitSet
  | .storeBits slot value bits =>
      ws.clientBankUpdateAvailable = false ∧ copy = ws.validClientsBitSet ∧
        bits = setBit ws.validClientsBitSet slot value
  | .setFlag slot value =>
      ws.clientBankUpdateAvailable = false ∧ ws.validClientsBitSet = setBit copy slot value
  | .waitAck slot =>
      getBit ws.validClientsBitSet slot = false ∧
        (∀ i : Fin maxClients, i ≠ slot → getBit copy i = true →
          getBit ws.validClientsBitSet i = true) ∧
        (ws.clientBankUpdateAvailable = false → copy = ws.validClientsBitSet)
  | .unsubscribe slot =>
      getBit ws.validClientsBitSet slot = false ∧ ws.clientBankUpdateAvailable = false ∧
        copy = ws.validClientsBitSet
  | _ =>
      Within copy ws.validClientsBitSet ∧
        (ws.clientBankUpdateAvailable = false → copy = ws.validClientsBitSet)

def DispatcherFacts (ws : ServerWorkspace) (copy : UInt64) : DispatcherPc → Prop
  | .loadBits => ws.clientBankUpdateAvailable = true
  | .clearFlag => ws.clientBankUpdateAvailable = true ∧ copy = ws.validClientsBitSet
  | .use slot => getBit copy slot = true
  | _ => True

def FlagInv (s : State) : Prop :=
  HandlerFacts s.workspace s.localValidClientsBitSet s.handler ∧
    DispatcherFacts s.workspace s.localValidClientsBitSet s.dispatcher

theorem handlerFacts_of_move {copy : UInt64} (hmove : HandlerMove uninitialized ws pc ws' pc')
    (h : HandlerFacts ws copy pc) : HandlerFacts ws' copy pc' := by
  cases hmove with
  | taken | free | unassigned | reset | built | thrown | ran | other | found | spin | spinAck =>
      exact h
  | enter hflag => exact ⟨hflag, h.2 hflag⟩
  | loadBits => exact ⟨h.1, h.2, rfl⟩
  | storeBits => exact ⟨h.1, by rw [h.2.1]; exact h.2.2⟩
  | @added slot =>
      refine ⟨?_, fun hflag => by cases hflag⟩
      intro i hi
      change getBit ws.validClientsBitSet i = true
      rw [h.2, getBit_setBit _ slot.isLt i.isLt]
      split
      · rfl
      · exact hi
  | @removing slot =>
      refine ⟨?_, ?_, fun hflag => by cases hflag⟩
      · change getBit ws.validClientsBitSet slot = false
        rw [h.2, getBit_setBit _ slot.isLt slot.isLt, if_pos rfl]
      · intro i hne hi
        change getBit ws.validClientsBitSet i = true
        rw [h.2, getBit_setBit _ slot.isLt i.isLt, if_neg (Fin.val_ne_of_ne hne)]
        exact hi
  | acked hflag => exact ⟨h.1, hflag, h.2.2 hflag⟩
  | removed => exact ⟨within_of_eq h.2.2, fun _ => h.2.2⟩

/-- While the flag is set the handler neither lowers it nor writes the bit set. -/
theorem keeps_of_flag {copy : UInt64} (hmove : HandlerMove uninitialized ws pc ws' pc')
    (h : HandlerFacts ws copy pc) (hflag : ws.clientBankUpdateAvailable = true) :
    ws'.clientBankUpdateAvailable = true ∧ ws'.validClientsBitSet = ws.validClientsBitSet := by
  cases hmove with
  | storeBits => exact absurd (hflag.symm.trans h.1) (by decide)
  | added => exact ⟨rfl, rfl⟩
  | removing => exact ⟨rfl, rfl⟩
  | _ => exact ⟨hflag, rfl⟩

theorem dispatcherFacts_of_move {copy : UInt64} {dispatcher : DispatcherPc}
    (hmove : HandlerMove uninitialized ws pc ws' pc') (h : HandlerFacts ws copy pc)
    (hd : DispatcherFacts ws copy dispatcher) : DispatcherFacts ws' copy dispatcher := by
  cases dispatcher with
  | loadBits => exact (keeps_of_flag hmove h hd).1
  | clearFlag =>
      obtain ⟨hflag, hvalid⟩ := keeps_of_flag hmove h hd.1
      exact ⟨hflag, hd.2.trans hvalid.symm⟩
  | _ => exact hd

theorem handlerFacts_take {copy : UInt64} (h : HandlerFacts ws copy pc)
    (hflag : ws.clientBankUpdateAvailable = true) : HandlerFacts ws ws.validClientsBitSet pc := by
  have hset : ws.clientBankUpdateAvailable ≠ false := by
    rw [hflag]
    decide
  cases pc with
  | loadBits slot value => exact absurd h.1 hset
  | storeBits slot value bits => exact absurd h.1 hset
  | setFlag slot value => exact absurd h.1 hset
  | unsubscribe slot => exact absurd h.2.1 hset
  | waitAck slot => exact ⟨h.1, fun i _ hi => hi, fun _ => rfl⟩
  | _ => exact ⟨fun i hi => hi, fun _ => rfl⟩

theorem handlerFacts_clear {copy : UInt64} (h : HandlerFacts ws copy pc)
    (hcopy : copy = ws.validClientsBitSet) :
    HandlerFacts { ws with clientBankUpdateAvailable := false } copy pc := by
  cases pc with
  | loadBits slot value => exact ⟨rfl, hcopy⟩
  | storeBits slot value bits => exact ⟨rfl, hcopy, h.2.2⟩
  | setFlag slot value => exact ⟨rfl, h.2⟩
  | waitAck slot => exact ⟨h.1, h.2.1, fun _ => hcopy⟩
  | unsubscribe slot => exact ⟨h.1, rfl, hcopy⟩
  | _ => exact ⟨h.1, fun _ => hcopy⟩

theorem flagInv_dispatcher (h : FlagInv s) (hmove : DispatcherMove s t) : FlagInv t := by
  obtain ⟨hhandler, hdispatcher⟩ := h
  cases hmove with
  | again | exit | unseen | skip | wrap => exact ⟨hhandler, trivial⟩
  | seen _ hflag => exact ⟨hhandler, hflag⟩
  | take hpc =>
      rw [hpc] at hdispatcher
      exact ⟨handlerFacts_take hhandler hdispatcher, hdispatcher, rfl⟩
  | clear hpc =>
      rw [hpc] at hdispatcher
      exact ⟨handlerFacts_clear hhandler hdispatcher.2, trivial⟩
  | enter _ hbit => exact ⟨hhandler, hbit⟩
  | leave => exact ⟨by cases hpc : s.handler <;> rw [hpc] at hhandler <;> exact hhandler, trivial⟩

theorem flagInv_step {a : Action} (h : FlagInv s) (hstep : step uninitialized s a = some t) :
    FlagInv t := by
  cases move_of_step hstep with
  | add hidle | remove hidle =>
      obtain ⟨hhandler, hdispatcher⟩ := h
      rw [hidle] at hhandler
      exact ⟨hhandler, hdispatcher⟩
  | handler hmove => exact ⟨handlerFacts_of_move hmove h.1, dispatcherFacts_of_move hmove h.1 h.2⟩
  | dispatcher hmove => exact flagInv_dispatcher h hmove
  | stop => exact h

/-! ## The bank -/

/-- A context that some call of `AddClient` has built to the end. -/
def Built (ctx : ClientContext) : Prop := ∃ req, ctx.Complete req

/-- What the handler knows about the slot it works on. -/
def SlotFacts (ws : ServerWorkspace) : HandlerPc → Prop
  | .addSearch _ i => ∃ j : Fin maxClients, i ≤ j.val ∧ getBit ws.validClientsBitSet j = false
  | .addReset _ slot => getBit ws.validClientsBitSet slot = false
  | .addBuild req slot steps =>
      getBit ws.validClientsBitSet slot = false ∧
        ∃ before, before ++ steps = buildSteps req.k ∧
          progress req before ClientContext.new = some (ws.clientBank slot)
  | .waitFlag slot true | .loadBits slot true | .storeBits slot true _ => Built (ws.clientBank slot)
  | _ => True

/-- The slots whose subscription and bit may differ because of the handler. -/
def HandlerPc.works (slot : Fin maxClients) : HandlerPc → Prop
  | .addBuild _ i _ | .waitFlag i true | .loadBits i true | .storeBits i true _ | .setFlag i false
  | .waitAck i | .unsubscribe i => i = slot
  | _ => False

structure BankInv (s : State) : Prop where
  slot : SlotFacts s.workspace s.handler
  valid_built : ∀ i : Fin maxClients,
    getBit s.workspace.validClientsBitSet i = true → Built (s.workspace.clientBank i)
  copy_built : ∀ i : Fin maxClients,
    getBit s.localValidClientsBitSet i = true → Built (s.workspace.clientBank i)
  subscribed_iff : ∀ i : Fin maxClients, ¬ s.handler.works i →
    (s.workspace.clientBank i).subscribed = getBit s.workspace.validClientsBitSet i

theorem clear_of_writes {copy : UInt64} {slot : Fin maxClients} (hslot : SlotFacts ws pc)
    (h : HandlerFacts ws copy pc) (hwrites : pc.writes slot) :
    getBit ws.validClientsBitSet slot = false ∧ getBit copy slot = false := by
  have hcopy : Within copy ws.validClientsBitSet → getBit ws.validClientsBitSet slot = false →
      getBit copy slot = false := by
    intro hwithin hclear
    by_contra hset
    rw [hwithin slot (Bool.eq_true_of_not_eq_false hset)] at hclear
    cases hclear
  cases pc with
  | addReset req i =>
      cases hwrites
      exact ⟨hslot, hcopy h.1 hslot⟩
  | addBuild req i steps =>
      cases hwrites
      exact ⟨hslot.1, hcopy h.1 hslot.1⟩
  | unsubscribe i =>
      cases hwrites
      exact ⟨h.1, by rw [h.2.2]; exact h.1⟩
  | _ => exact absurd hwrites id

theorem clientBank_of_move (hmove : HandlerMove uninitialized ws pc ws' pc') {i : Fin maxClients}
    (hi : ¬ pc.writes i) : ws'.clientBank i = ws.clientBank i := by
  cases hmove with
  | reset => exact Function.update_of_ne (Ne.symm hi) _ _
  | ran hrun => exact Function.update_of_ne (Ne.symm hi) _ _
  | removed => exact Function.update_of_ne (Ne.symm hi) _ _
  | _ => rfl

theorem subscribed_progress {req : SubscribeRequest} {steps : List BuildStep}
    {ctx ctx' : ClientContext} (hsteps : .setSubscribed ∉ steps)
    (h : progress req steps ctx = some ctx') : ctx'.subscribed = ctx.subscribed := by
  induction steps generalizing ctx with
  | nil =>
      cases h
      rfl
  | cons step steps ih =>
      rw [List.mem_cons, not_or] at hsteps
      rw [progress_cons] at h
      obtain ⟨next, hrun, hrest⟩ := Option.bind_eq_some_iff.mp h
      rw [ih hsteps.2 hrest, step.subscribed_run hrun (Ne.symm hsteps.1)]

theorem not_subscribed_of_progress {req : SubscribeRequest} {before steps : List BuildStep}
    {step : BuildStep} {ctx : ClientContext}
    (hsteps : before ++ step :: steps = buildSteps req.k)
    (hprogress : progress req before ClientContext.new = some ctx) : ctx.subscribed = false := by
  rw [subscribed_progress ?_ hprogress]
  · rfl
  · intro hmem
    have hinit := congrArg List.dropLast hsteps
    rw [List.dropLast_append_of_ne_nil (List.cons_ne_nil _ _), buildSteps,
      List.dropLast_concat] at hinit
    have hbefore := List.mem_append_left (step :: steps).dropLast hmem
    rw [hinit] at hbefore
    simp at hbefore

theorem slotFacts_of_move (hmove : HandlerMove uninitialized ws pc ws' pc')
    (hslot : SlotFacts ws pc) : SlotFacts ws' pc' := by
  cases hmove with
  | @taken req i hbit =>
      obtain ⟨j, hle, hclear⟩ := hslot
      have hne : i.val ≠ j.val := by
        intro heq
        rw [heq, hclear] at hbit
        cases hbit
      exact ⟨j, by omega, hclear⟩
  | free hbit => exact hbit
  | unassigned hi =>
      -- some bit was clear when the search began, and it has not been passed
      obtain ⟨j, hle, -⟩ := hslot
      exact absurd j.isLt (by omega)
  | @reset req slot =>
      refine ⟨hslot, [], rfl, ?_⟩
      rw [setClient_self]
      rfl
  | @built req slot =>
      obtain ⟨-, before, hsteps, hprogress⟩ := hslot
      rw [List.append_nil] at hsteps
      rw [hsteps] at hprogress
      exact ⟨req, complete_of_progress hprogress⟩
  | @ran req slot step steps ctx hrun =>
      obtain ⟨hclear, before, hsteps, hprogress⟩ := hslot
      refine ⟨hclear, before ++ [step], by rw [List.append_assoc]; exact hsteps, ?_⟩
      rw [progress_concat hprogress, hrun]
      rw [setClient_self]
  | @found clientId i slot => trivial
  | @spin slot value => exact hslot
  | @enter slot value hflag => cases value <;> exact hslot
  | @loadBits slot value => cases value <;> exact hslot
  | @storeBits slot value bits => cases value <;> trivial
  | _ => trivial

/-- A bit is set only when its slot has been built. -/
theorem built_of_move {copy : UInt64} (hmove : HandlerMove uninitialized ws pc ws' pc')
    (hslot : SlotFacts ws pc) (hhandler : HandlerFacts ws copy pc)
    (hvalid : ∀ i : Fin maxClients, getBit ws.validClientsBitSet i = true →
      Built (ws.clientBank i)) {i : Fin maxClients}
    (hi : getBit ws'.validClientsBitSet i = true) : Built (ws'.clientBank i) := by
  have hkept (hset : getBit ws.validClientsBitSet i = true) : Built (ws'.clientBank i) := by
    rw [clientBank_of_move hmove]
    · exact hvalid i hset
    · intro hwrites
      rw [(clear_of_writes hslot hhandler hwrites).1] at hset
      cases hset
  cases hmove with
  | @storeBits slot value bits =>
      dsimp only at hi
      rw [hhandler.2.2, getBit_setBit _ slot.isLt i.isLt] at hi
      by_cases heq : i = slot
      · subst heq
        rw [if_pos rfl] at hi
        subst hi
        exact hslot
      · rw [if_neg (Fin.val_ne_of_ne heq)] at hi
        exact hkept hi
  | _ => exact hkept hi

/-- A slot and its bit go apart only where the handler works, and meet again when it leaves. -/
theorem subscribed_of_move {copy : UInt64} (hmove : HandlerMove uninitialized ws pc ws' pc')
    (hslot : SlotFacts ws pc) (hhandler : HandlerFacts ws copy pc)
    (hsub : ∀ i, ¬ pc.works i → (ws.clientBank i).subscribed = getBit ws.validClientsBitSet i)
    {i : Fin maxClients} (hworks : ¬ pc'.works i) :
    (ws'.clientBank i).subscribed = getBit ws'.validClientsBitSet i := by
  cases hmove with
  | @reset req slot =>
      rw [setClient_of_ne _ (Ne.symm hworks)]
      exact hsub i id
  | @thrown req slot step steps =>
      by_cases heq : slot = i
      · subst heq
        obtain ⟨hclear, before, hsteps, hprogress⟩ := hslot
        rw [hclear]
        exact not_subscribed_of_progress hsteps hprogress
      · exact hsub i heq
  | @ran req slot step steps ctx hrun =>
      rw [setClient_of_ne _ (Ne.symm hworks)]
      exact hsub i hworks
  | @enter slot value =>
      apply hsub
      cases value <;> exact hworks
  | @loadBits slot value =>
      apply hsub
      cases value <;> exact hworks
  | @storeBits slot value bits =>
      dsimp only
      rw [hhandler.2.2, getBit_setBit _ slot.isLt i.isLt]
      cases value with
      | true =>
          by_cases heq : i = slot
          · subst heq
            obtain ⟨req, hcomplete⟩ := hslot
            rw [if_pos rfl, hcomplete.subscribed]
          · rw [if_neg (Fin.val_ne_of_ne heq)]
            exact hsub i (Ne.symm heq)
      | false =>
          rw [if_neg (Fin.val_ne_of_ne (Ne.symm hworks))]
          exact hsub i id
  | @removed slot =>
      by_cases heq : i = slot
      · subst heq
        rw [setClient_self]
        exact hhandler.1.symm
      · rw [setClient_of_ne _ heq]
        exact hsub i (Ne.symm heq)
  | _ => exact hsub i hworks

theorem bankInv_handler (hflag : FlagInv s) (h : BankInv s)
    (hmove : HandlerMove uninitialized s.workspace s.handler ws' pc') :
    BankInv { s with workspace := ws', handler := pc' } := by
  obtain ⟨hhandler, -⟩ := hflag
  obtain ⟨hslot, hvalid, hcopy, hsub⟩ := h
  refine ⟨slotFacts_of_move hmove hslot, ?_, ?_, ?_⟩
  · intro i hi
    exact built_of_move hmove hslot hhandler hvalid hi
  · intro i hi
    rw [clientBank_of_move hmove]
    · exact hcopy i hi
    · -- the slot that is written is in neither bit set
      intro hwrites
      rw [(clear_of_writes hslot hhandler hwrites).2] at hi
      cases hi
  · intro i hworks
    exact subscribed_of_move hmove hslot hhandler hsub hworks

section Serve

variable {slot i : Fin maxClients} {stats : ClientStats}

theorem subscribed_serve :
    ((serve ws slot stats).clientBank i).subscribed = (ws.clientBank i).subscribed := by
  by_cases heq : i = slot
  · rw [heq, serve, setClient_self]
  · rw [serve, setClient_of_ne _ heq]

theorem id_serve : ((serve ws slot stats).clientBank i).id = (ws.clientBank i).id := by
  by_cases heq : i = slot
  · rw [heq, serve, setClient_self]
  · rw [serve, setClient_of_ne _ heq]

theorem built_serve (h : Built (ws.clientBank i)) : Built ((serve ws slot stats).clientBank i) := by
  by_cases heq : i = slot
  · subst heq
    obtain ⟨req, hreq⟩ := h
    rw [serve, setClient_self]
    exact ⟨req, { hreq with }⟩
  · rwa [serve, setClient_of_ne _ heq]

theorem slotFacts_serve {copy : UInt64} (hslot : SlotFacts ws pc) (h : HandlerFacts ws copy pc)
    (hcopy : getBit copy slot = true) : SlotFacts (serve ws slot stats) pc := by
  cases pc with
  | addBuild req i steps =>
      have hne : i ≠ slot := by
        intro heq
        have hwrites : (HandlerPc.addBuild req i steps).writes i := rfl
        have hclear := (clear_of_writes hslot h hwrites).2
        rw [heq, hcopy] at hclear
        cases hclear
      obtain ⟨hclear, before, hsteps, hprogress⟩ := hslot
      exact ⟨hclear, before, hsteps, by rw [serve, setClient_of_ne _ hne, hprogress]⟩
  | waitFlag i value => cases value <;> first | trivial | exact built_serve hslot
  | loadBits i value => cases value <;> first | trivial | exact built_serve hslot
  | storeBits i value bits => cases value <;> first | trivial | exact built_serve hslot
  | _ => exact hslot

end Serve

theorem bankInv_dispatcher (hflag : FlagInv s) (h : BankInv s) (hmove : DispatcherMove s t) :
    BankInv t := by
  obtain ⟨hslot, hvalid, hcopy, hsub⟩ := h
  cases hmove with
  | again | exit | seen | unseen | enter | skip | wrap => exact ⟨hslot, hvalid, hcopy, hsub⟩
  | take => exact ⟨hslot, hvalid, hvalid, hsub⟩
  | clear =>
      exact ⟨by cases hpc : s.handler <;> rw [hpc] at hslot <;> exact hslot, hvalid, hcopy, hsub⟩
  | leave hpc =>
      obtain ⟨hhandler, hdispatcher⟩ := hflag
      rw [hpc] at hdispatcher
      refine ⟨slotFacts_serve hslot hhandler hdispatcher, ?_, ?_, ?_⟩
      · intro i hi
        exact built_serve (hvalid i hi)
      · intro i hi
        exact built_serve (hcopy i hi)
      · intro i hi
        exact subscribed_serve.trans (hsub i hi)

theorem bankInv_step {a : Action} (hflag : FlagInv s) (h : BankInv s)
    (hstep : step uninitialized s a = some t) : BankInv t := by
  cases move_of_step hstep with
  | add hidle hroom =>
      obtain ⟨-, hvalid, hcopy, hsub⟩ := h
      rw [hidle] at hsub
      obtain ⟨j, hj⟩ := subscribedCount_lt_iff.mp hroom
      refine ⟨⟨j, Nat.zero_le _, ?_⟩, hvalid, hcopy, hsub⟩
      exact (hsub j id).symm.trans hj
  | remove hidle =>
      obtain ⟨-, hvalid, hcopy, hsub⟩ := h
      rw [hidle] at hsub
      exact ⟨trivial, hvalid, hcopy, hsub⟩
  | handler hmove => exact bankInv_handler hflag h hmove
  | dispatcher hmove => exact bankInv_dispatcher hflag h hmove
  | stop => exact { h with }

theorem inv_of_reachable (h : (machine uninitialized).Reachable s) : FlagInv s ∧ BankInv s := by
  apply Lib.Machine.Reachable.invariant (I := fun s => FlagInv s ∧ BankInv s) ?_ ?_ h
  · rintro s ⟨serverPid, rfl⟩
    have hzero : ∀ i : Fin maxClients, getBit 0 i = true → False := by
      intro i hi
      rw [getBit_zero i.isLt] at hi
      cases hi
    refine ⟨⟨⟨fun i hi => hi, fun _ => rfl⟩, trivial⟩, trivial, ?_, ?_, ?_⟩
    · intro i hi
      exact (hzero i hi).elim
    · intro i hi
      exact (hzero i hi).elim
    · intro i _
      exact (getBit_zero i.isLt).symm
  · intro s a t hs hstep
    exact ⟨flagInv_step hs.1 hstep, bankInv_step hs.1 hs.2 hstep⟩

/-- An update that is not announced has been taken. -/
theorem copy_eq_of_flag {copy : UInt64} (h : HandlerFacts ws copy pc)
    (hflag : ws.clientBankUpdateAvailable = false)
    (hpublished : ∀ slot value, pc ≠ .setFlag slot value) :
    copy = ws.validClientsBitSet := by
  cases pc with
  | loadBits slot value => exact h.2
  | storeBits slot value bits => exact h.2.1
  | setFlag slot value => exact absurd rfl (hpublished slot value)
  | waitAck slot => exact h.2.2 hflag
  | unsubscribe slot => exact h.2.2
  | _ => exact h.2 hflag

/-- The dispatcher uses only complete slots that the handler is not writing, no slot is written
while its bit is in the dispatcher's copy, and no bank update is lost. -/
theorem handoff_safe (h : (machine uninitialized).Reachable s) :
    (∀ slot, s.dispatcher = .use slot →
      (∃ req, (s.workspace.clientBank slot).Complete req) ∧ ¬ s.handler.writes slot) ∧
    (∀ slot : Fin maxClients, getBit s.localValidClientsBitSet slot = true →
      ¬ s.handler.writes slot ∧ ∀ throws t, step uninitialized s (.handler throws) = some t →
        t.workspace.clientBank slot = s.workspace.clientBank slot) ∧
    (s.dispatcher = .loadBits ∨ s.dispatcher = .clearFlag →
      ∀ throws t, step uninitialized s (.handler throws) = some t →
        t.workspace.validClientsBitSet = s.workspace.validClientsBitSet) ∧
    (s.dispatcher = .clearFlag →
      s.localValidClientsBitSet = s.workspace.validClientsBitSet) ∧
    (s.workspace.clientBankUpdateAvailable = false →
      (∀ slot value, s.handler ≠ .setFlag slot value) →
      s.localValidClientsBitSet = s.workspace.validClientsBitSet) := by
  obtain ⟨⟨hhandler, hdispatcher⟩, hbank⟩ := inv_of_reachable h
  have hwrites : ∀ slot : Fin maxClients, getBit s.localValidClientsBitSet slot = true →
      ¬ s.handler.writes slot := by
    intro slot hcopy hwrites
    rw [(clear_of_writes hbank.slot hhandler hwrites).2] at hcopy
    cases hcopy
  refine ⟨?_, ?_, ?_, ?_, ?_⟩
  · intro slot huse
    rw [huse] at hdispatcher
    exact ⟨hbank.copy_built slot hdispatcher, hwrites slot hdispatcher⟩
  · intro slot hcopy
    refine ⟨hwrites slot hcopy, ?_⟩
    intro throws t hstep
    obtain ⟨⟨ws', pc'⟩, hmove, rfl⟩ := Option.map_eq_some_iff.mp hstep
    exact clientBank_of_move (handlerMove_of_step hmove) (hwrites slot hcopy)
  · intro htaking throws t hstep
    obtain ⟨⟨ws', pc'⟩, hmove, rfl⟩ := Option.map_eq_some_iff.mp hstep
    have hflag : s.workspace.clientBankUpdateAvailable = true := by
      rcases htaking with hpc | hpc
      · rwa [hpc] at hdispatcher
      · rw [hpc] at hdispatcher
        exact hdispatcher.1
    exact (keeps_of_flag (handlerMove_of_step hmove) hhandler hflag).2
  · intro hpc
    rw [hpc] at hdispatcher
    exact hdispatcher.2
  · intro hflag hpublished
    exact copy_eq_of_flag hhandler hflag hpublished

/-- A client without buffers is added while the dispatcher rests; then the dispatcher takes the
update and comes to the new client's slot. -/
theorem handoff_safe_first_client :
    ∃ s, (machine 0).Reachable s ∧ s.dispatcher = .use ⟨0, by decide⟩ ∧
      ∃ req, (s.workspace.clientBank ⟨0, by decide⟩).Complete req := by
  let req : SubscribeRequest :=
    { clientId := 7, m := 6, n := 6, k := 0, context := { socket := 5 } }
  have hfinal : ((machine 0).exec (initial 1)
      (.add req :: (List.replicate 19 (.handler false) ++ List.replicate 5 (.dispatcher none)))).map
        State.dispatcher = some (.use ⟨0, by decide⟩) := by
    decide +kernel
  obtain ⟨s, hrun, huse⟩ := Option.map_eq_some_iff.mp hfinal
  have hreach : (machine 0).Reachable s := ⟨_, _, ⟨1, rfl⟩, hrun⟩
  exact ⟨s, hreach, huse, ((handoff_safe hreach).1 _ huse).1⟩

end MatrixTransposer.ClientBankHandoff
