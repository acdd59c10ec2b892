import MatrixTransposer.Proof.DeploymentContexts
import MatrixTransposer.Proof.SubscribedClients

/-!
# The sessions of the clients

A client subscribes once, is answered once at most, and only when it is in the bank, and it stays in
the bank until it unsubscribes. The proof counts what is under way of a client's subscription: its
message, the call of `AddClient`, the response, and that it has been received.
-/

namespace MatrixTransposer.Deployment

open Lib
open RequestCycle (Subscribed)
open TransposeServer (HasSlot SparesClient adding)

variable {cfg : Config} {s t : State} {pid p : UInt32} {fd : Nat}

/-- The client has not subscribed yet. -/
def Phase.early : Phase → Bool
  | .construct | .subscribe => true
  | _ => false

/-- The client does not need the server any more. -/
def Phase.leaving : Phase → Bool
  | .verify | .exited _ => true
  | _ => false

/-- The responses for the client: about to be sent, on their way, and received. -/
def State.responses (cfg : Config) (s : State) (pid : UInt32) : Nat :=
  (if s.response.map (fun response => response.1.socket) = some (cfg.socket pid) then 1 else 0) +
    (s.toClient (cfg.socket pid)).length + (if s.subscribeResponseReceived pid then 1 else 0)

/-- What is under way, or done, of the client's subscription. -/
def State.openSteps (cfg : Config) (s : State) (pid : UInt32) : Nat :=
  (s.toServer (cfg.socket pid)).countP (fun message => message.type = .subscribe) +
    (if adding s.cycle = some pid then 1 else 0) + s.responses cfg pid

structure Session (cfg : Config) (s : State) (pid : UInt32) : Prop where
  once : s.openSteps cfg pid + (s.phase pid).early.toNat ≤ 1
  present : HasSlot pid s.cycle → (s.phase pid).early = false
  caller : adding s.cycle = some pid → s.caller = some ({ socket := cfg.socket pid }, pid)
  spared : (s.phase pid).leaving = false → SparesClient pid s.cycle ∧
    ∀ message ∈ s.toServer (cfg.socket pid), message.type ≠ .unsubscribe
  granted : 0 < s.responses cfg pid → (s.phase pid).leaving = false →
    ∃ slot, Subscribed pid slot s.cycle
  received : s.phase pid = .requests ∨ s.phase pid = .unsubscribe →
    s.subscribeResponseReceived pid = true

theorem Session.not_early_of_adding (h : Session cfg s pid) (hadding : adding s.cycle = some pid) :
    (s.phase pid).early = false := by
  have honce := h.once
  simp only [State.openSteps, if_pos hadding] at honce
  cases hearly : (s.phase pid).early with
  | false => rfl
  | true =>
      rw [hearly, Bool.toNat_true] at honce
      omega

/-! ## Steps that leave the server alone -/

structure SameServer (cfg : Config) (pid : UInt32) (s t : State) : Prop where
  server : t.cycle.server = s.cycle.server
  toServer : t.toServer (cfg.socket pid) = s.toServer (cfg.socket pid)
  caller : t.caller = s.caller
  responses : t.responses cfg pid ≤ s.responses cfg pid

theorem Session.of_client (h : Session cfg s pid) (hsame : SameServer cfg pid s t)
    (hearly : (t.phase pid).early = (s.phase pid).early ∨ (t.phase pid).early = false)
    (hleaving : (t.phase pid).leaving = false → (s.phase pid).leaving = false)
    (hreceived : t.phase pid = .requests ∨ t.phase pid = .unsubscribe →
      t.subscribeResponseReceived pid = true) : Session cfg t pid := by
  obtain ⟨hserver, htoServer, hcaller, hresponses⟩ := hsame
  have hadding : adding t.cycle = adding s.cycle := by rw [adding, adding, hserver]
  have hopen : t.openSteps cfg pid ≤ s.openSteps cfg pid := by
    rw [State.openSteps, State.openSteps, hadding, htoServer]
    omega
  refine ⟨?_, ?_, ?_, ?_, ?_, hreceived⟩
  · have honce := h.once
    rcases hearly with heq | hfalse
    · rw [heq]
      omega
    · rw [hfalse, Bool.toNat_false]
      omega
  · intro hslot
    rw [HasSlot, hserver] at hslot
    rcases hearly with heq | hfalse
    · rw [heq]
      exact h.present hslot
    · exact hfalse
  · rw [hadding, hcaller]
    exact h.caller
  · intro hstays
    rw [SparesClient, hserver, htoServer]
    exact h.spared (hleaving hstays)
  · intro hpos hstays
    obtain ⟨slot, hsubscribed⟩ := h.granted (hpos.trans_le hresponses) (hleaving hstays)
    exact ⟨slot, hserver ▸ hsubscribed.bit, hserver ▸ hsubscribed.id,
      hserver ▸ hsubscribed.announced⟩

/-- A step of another client's `main`, or of this one's outside its subscription. -/
theorem SameServer.refl (hserver : t.cycle.server = s.cycle.server)
    (htoServer : t.toServer (cfg.socket pid) = s.toServer (cfg.socket pid))
    (hcaller : t.caller = s.caller) (hresponse : t.response = s.response)
    (htoClient : t.toClient = s.toClient)
    (hreceived : t.subscribeResponseReceived = s.subscribeResponseReceived) :
    SameServer cfg pid s t :=
  ⟨hserver, htoServer, hcaller,
    by rw [State.responses, State.responses, hresponse, htoClient, hreceived]⟩

theorem Session.of_same (h : Session cfg s pid) (hsame : SameServer cfg pid s t)
    (hphase : t.phase pid = s.phase pid)
    (hreceived : s.subscribeResponseReceived pid = true →
      t.subscribeResponseReceived pid = true) : Session cfg t pid := by
  apply h.of_client hsame
  · exact Or.inl (congrArg Phase.early hphase)
  · rw [hphase]
    exact id
  · rw [hphase]
    exact fun hlater => hreceived (h.received hlater)

/-! ## The client subscribes and unsubscribes -/

theorem sendToServer_of_ne (hne : fd ≠ cfg.socket p) {message : ClientServerMessage} :
    (s.sendToServer (cfg.socket p) message).toServer fd = s.toServer fd :=
  Function.update_of_ne hne _ _

theorem Session.subscribe (h : Session cfg s pid) (hphase : s.phase pid = .subscribe) :
    Session cfg ((s.sendToServer (cfg.socket pid) (cfg.subscribeMessage pid)).setPhase pid
      .awaitResponse) pid := by
  have hqueue : ((s.sendToServer (cfg.socket pid) (cfg.subscribeMessage pid)).setPhase pid
      .awaitResponse).toServer (cfg.socket pid) =
        s.toServer (cfg.socket pid) ++ [cfg.subscribeMessage pid] :=
    Function.update_self _ _ _
  have hearly : (((s.sendToServer (cfg.socket pid) (cfg.subscribeMessage pid)).setPhase pid
      .awaitResponse).phase pid).early = false :=
    congrArg Phase.early (setPhase_phase_self _ _ _)
  have hstays : (s.phase pid).leaving = false := congrArg Phase.leaving hphase
  refine ⟨?_, fun _ => hearly, h.caller, ?_, fun hpos _ => h.granted hpos hstays, ?_⟩
  · have honce := h.once
    have hcount : [cfg.subscribeMessage pid].countP (fun m => m.type = .subscribe) = 1 := rfl
    have hbefore : (s.phase pid).early = true := congrArg Phase.early hphase
    rw [hbefore, State.openSteps, Bool.toNat_true] at honce
    rw [hearly, State.openSteps, hqueue, List.countP_append, hcount, Bool.toNat_false]
    change _ + (if adding s.cycle = some pid then 1 else 0) + s.responses cfg pid + _ ≤ 1
    omega
  · intro _
    obtain ⟨hspares, hqueued⟩ := h.spared hstays
    refine ⟨hspares, ?_⟩
    rw [hqueue]
    intro message hmessage
    rcases List.mem_append.mp hmessage with hold | hnew
    · exact hqueued message hold
    · rw [List.mem_singleton.mp hnew]
      exact fun htype => by cases htype
  · rw [setPhase_phase_self]
    rintro (hlater | hlater) <;> cases hlater

theorem Session.unsubscribe (h : Session cfg s pid) :
    Session cfg ((s.sendToServer (cfg.socket pid) (cfg.unsubscribeMessage pid)).setPhase pid
      .verify) pid := by
  have hqueue : ((s.sendToServer (cfg.socket pid) (cfg.unsubscribeMessage pid)).setPhase pid
      .verify).toServer (cfg.socket pid) =
        s.toServer (cfg.socket pid) ++ [cfg.unsubscribeMessage pid] :=
    Function.update_self _ _ _
  have hearly : (((s.sendToServer (cfg.socket pid) (cfg.unsubscribeMessage pid)).setPhase pid
      .verify).phase pid).early = false :=
    congrArg Phase.early (setPhase_phase_self _ _ _)
  refine ⟨?_, fun _ => hearly, h.caller, ?_, ?_, ?_⟩
  · have honce := h.once
    have hcount : [cfg.unsubscribeMessage pid].countP (fun m => m.type = .subscribe) = 0 := rfl
    rw [State.openSteps] at honce
    rw [hearly, State.openSteps, hqueue, List.countP_append, hcount, Bool.toNat_false]
    change _ + (if adding s.cycle = some pid then 1 else 0) + s.responses cfg pid + _ ≤ 1
    omega
  · rw [setPhase_phase_self]
    exact fun hstays => by cases hstays
  · rw [setPhase_phase_self]
    exact fun _ hstays => by cases hstays
  · rw [setPhase_phase_self]
    rintro (hlater | hlater) <;> cases hlater

/-! ## The responses on their way -/

theorem responses_send {context : UnixSockIpcContext} {message : ClientServerMessage}
    (hresponse : s.response = some (context, message)) (ht : t.response = none)
    (htoClient : t.toClient =
      Function.update s.toClient context.socket (s.toClient context.socket ++ [message]))
    (hreceived : t.subscribeResponseReceived = s.subscribeResponseReceived) :
    t.responses cfg pid ≤ s.responses cfg pid := by
  unfold State.responses
  rw [hresponse, ht, htoClient, hreceived]
  by_cases heq : context.socket = cfg.socket pid
  · rw [heq, Function.update_self, Option.map_some, Option.map_none, heq, if_pos rfl,
      if_neg (by simp), List.length_append, List.length_singleton]
    omega
  · rw [Function.update_of_ne (Ne.symm heq), Option.map_none, if_neg (by simp)]
    omega

theorem responses_receive {p : UInt32} {message : ClientServerMessage}
    {rest : List ClientServerMessage} (hnext : s.toClient (cfg.socket p) = message :: rest)
    (ht : t.response = s.response)
    (htoClient : t.toClient = Function.update s.toClient (cfg.socket p) rest)
    (hreceived : t.subscribeResponseReceived =
      Function.update s.subscribeResponseReceived p true) :
    t.responses cfg pid ≤ s.responses cfg pid := by
  unfold State.responses
  rw [ht, htoClient, hreceived]
  by_cases heq : pid = p
  · subst heq
    rw [Function.update_self, Function.update_self, hnext, List.length_cons]
    split <;> split <;> omega
  · have hsocket : cfg.socket pid ≠ cfg.socket p := fun h => heq (cfg.socket_injective h)
    rw [Function.update_of_ne hsocket, Function.update_of_ne heq]

/-! ## Steps of the server -/

/-- A step of the server and its clients that removes this client only if it leaves. -/
theorem Session.of_cycle {a : TransposeServer.Action} (h : Session cfg s pid)
    (hreach : (machine cfg).Reachable s)
    (hstep : TransposeServer.step cfg.uninitialized s.cycle a = some t.cycle)
    (hphase : t.phase pid = s.phase pid)
    (hreceived : t.subscribeResponseReceived = s.subscribeResponseReceived)
    (hopen : t.openSteps cfg pid ≤ s.openSteps cfg pid)
    (hcaller : adding t.cycle = some pid → t.caller = some ({ socket := cfg.socket pid }, pid))
    (hqueue : ∀ message ∈ t.toServer (cfg.socket pid), message ∈ s.toServer (cfg.socket pid))
    (hremoves : (s.phase pid).leaving = false → ∀ context message,
      a = .server (.message context message) →
        ¬ (message.type = .unsubscribe ∧ message.senderId = pid))
    (hgranted : 0 < t.responses cfg pid → 0 < s.responses cfg pid ∨
      ∃ slot, Subscribed pid slot t.cycle) : Session cfg t pid := by
  have hserver := serverInv_of_reachable hreach
  have hslots := TransposeServer.slotInv_of_reachable (cycle_reachable hreach)
  refine ⟨?_, ?_, hcaller, ?_, ?_, ?_⟩
  · have honce := h.once
    rw [hphase]
    omega
  · intro hslot
    rw [hphase]
    rcases TransposeServer.hasSlot_step hserver hstep hslot with hslot | hadds
    · exact h.present hslot
    · exact h.not_early_of_adding hadds
  · intro hstays
    rw [hphase] at hstays
    obtain ⟨hspares, hqueued⟩ := h.spared hstays
    exact ⟨TransposeServer.sparesClient_step hspares (hremoves hstays) hstep,
      fun message hmessage => hqueued message (hqueue message hmessage)⟩
  · intro hpos hstays
    rw [hphase] at hstays
    rcases hgranted hpos with hold | hnew
    · obtain ⟨slot, hsubscribed⟩ := h.granted hold hstays
      exact ⟨slot, TransposeServer.subscribed_step hserver hslots (h.spared hstays).1 hsubscribed
        hstep⟩
    · exact hnew
  · rw [hphase, hreceived]
    exact h.received

/-- The step is not about a message. -/
theorem Session.of_quiet {a : TransposeServer.Action} (h : Session cfg s pid)
    (hreach : (machine cfg).Reachable s)
    (ha : ∀ context message, a ≠ .server (.message context message))
    (hstep : TransposeServer.step cfg.uninitialized s.cycle a = some t.cycle)
    (hphase : t.phase = s.phase) (htoServer : t.toServer = s.toServer)
    (hcaller : t.caller = s.caller) (hresponses : t.responses cfg pid = s.responses cfg pid)
    (hreceived : t.subscribeResponseReceived = s.subscribeResponseReceived) :
    Session cfg t pid := by
  have hadding : adding t.cycle = some pid → adding s.cycle = some pid := by
    intro hsome
    rcases TransposeServer.adding_step (serverInv_of_reachable hreach) hstep with heq | hnone |
      ⟨context, message, heq, -⟩
    · rwa [← heq]
    · cases hsome.symm.trans hnone
    · exact absurd heq (ha context message)
  apply h.of_cycle hreach hstep (congrFun hphase pid) hreceived
  · rw [State.openSteps, State.openSteps, hresponses, htoServer]
    by_cases hsome : adding t.cycle = some pid
    · rw [if_pos hsome, if_pos (hadding hsome)]
    · rw [if_neg hsome]
      omega
  · intro hsome
    rw [hcaller]
    exact h.caller (hadding hsome)
  · rw [htoServer]
    exact fun message => id
  · exact fun _ context message heq => absurd heq (ha context message)
  · rw [hresponses]
    exact Or.inl

/-- The handler begins with the next message of the connection. -/
theorem Session.of_message {message : ClientServerMessage} {rest : List ClientServerMessage}
    {cycle : RequestCycle.State} (h : Session cfg s pid) (hreach : (machine cfg).Reachable s)
    (hnext : s.toServer fd = message :: rest)
    (hstep : TransposeServer.step cfg.uninitialized s.cycle
      (.server (.message { socket := fd } message)) = some cycle) :
    Session cfg { s with
      cycle := cycle
      toServer := Function.update s.toServer fd rest
      caller := some ({ socket := fd }, message.senderId) } pid := by
  obtain ⟨p, -, rfl, hsends⟩ :=
    (ownContexts_of_reachable hreach).messages fd message (hnext ▸ List.mem_cons_self)
  have hsender := hsends.senderId
  obtain ⟨hidle, -⟩ := begins_of_message hstep
  have hnone : adding s.cycle = none := by
    rw [adding, hidle]
    rfl
  -- the client that is added now is the sender
  have hadding : adding cycle = some pid → pid = p ∧ message.type = .subscribe := by
    intro hsome
    rcases TransposeServer.adding_step (serverInv_of_reachable hreach) hstep with heq | heq |
      ⟨context, message, heq, htype, -, hadds⟩
    · cases hsome.symm.trans (heq.trans hnone)
    · cases hsome.symm.trans heq
    · cases heq
      exact ⟨(Option.some.inj (hadds.symm.trans hsome)).symm.trans hsender, htype⟩
  have hqueue : pid = p ∧ (s.toServer (cfg.socket pid)) = message :: rest ∧
      (Function.update s.toServer (cfg.socket p) rest) (cfg.socket pid) = rest ∨
      pid ≠ p ∧ (Function.update s.toServer (cfg.socket p) rest) (cfg.socket pid) =
        s.toServer (cfg.socket pid) := by
    by_cases heq : pid = p
    · subst heq
      exact Or.inl ⟨rfl, hnext, Function.update_self _ _ _⟩
    · exact Or.inr ⟨heq, Function.update_of_ne (fun hs => heq (cfg.socket_injective hs)) _ _⟩
  refine h.of_cycle hreach hstep ?_ ?_ ?_ ?_ ?_ ?_ ?_
  · rfl
  · rfl
  · change List.countP _ (Function.update s.toServer (cfg.socket p) rest (cfg.socket pid)) +
      (if adding cycle = some pid then 1 else 0) + s.responses cfg pid ≤ s.openSteps cfg pid
    rw [State.openSteps]
    rcases hqueue with ⟨-, hold, hnew⟩ | ⟨hne, hnew⟩
    · rw [hold, hnew, List.countP_cons]
      by_cases hsome : adding cycle = some pid
      · simp only [hsome, (hadding hsome).2, decide_true, if_true]
        omega
      · rw [if_neg hsome]
        omega
    · rw [hnew, if_neg fun hsome => hne (hadding hsome).1]
      omega
  · intro hsome
    obtain ⟨rfl, -⟩ := hadding hsome
    exact congrArg (fun id => some (({ socket := cfg.socket pid } : UnixSockIpcContext), id))
      hsender
  · intro m hm
    change m ∈ Function.update s.toServer (cfg.socket p) rest (cfg.socket pid) at hm
    rcases hqueue with ⟨-, hold, hnew⟩ | ⟨-, hnew⟩
    · rw [hnew] at hm
      rw [hold]
      exact List.mem_cons_of_mem _ hm
    · rwa [hnew] at hm
  · rintro hstays context m heq ⟨htype, hid⟩
    cases heq
    obtain rfl : p = pid := hsender.symm.trans hid
    exact (h.spared hstays).2 message (hnext ▸ List.mem_cons_self) htype
  · exact Or.inl

theorem exists_slot_of_adds {pc : ClientBankHandoff.HandlerPc} (h : adds pc = true) :
    ∃ slot, pc = .setFlag slot true := by
  cases pc with
  | setFlag slot value =>
      cases value with
      | true => exact ⟨slot, rfl⟩
      | false => cases h
  | _ => cases h

/-- `AddClient` has returned true, and the handler has its response. -/
theorem Session.of_added {throws : Bool} {cycle : RequestCycle.State}
    (h : ∀ pid, Session cfg s pid) (hreach : (machine cfg).Reachable s)
    (hadds : adds s.cycle.server.handler = true)
    (hstep : TransposeServer.step cfg.uninitialized s.cycle (.server (.handler throws)) =
      some cycle) :
    Session cfg { s with
      cycle := cycle
      response := s.caller.map ({ s with cycle := cycle } : State).responseTo } pid := by
  have hserver := serverInv_of_reachable hreach
  obtain ⟨slot, hpc⟩ := exists_slot_of_adds hadds
  have hbefore : adding s.cycle = some (s.cycle.server.workspace.clientBank slot).id := by
    rw [adding, hpc]
    rfl
  have hafter : adding cycle = none := by
    cases TransposeServer.move_of_step hstep with
    | handler hhandler =>
        rw [hpc] at hhandler
        cases hhandler
        rfl
  have hsubscribed := TransposeServer.subscribed_of_added hserver hpc hstep
  have hcaller := (h _).caller hbefore
  generalize (s.cycle.server.workspace.clientBank slot).id = q at hbefore hsubscribed hcaller
  -- the response is for the client that was added, and for no other
  have hresponse : ({ s with
      cycle := cycle
      response := s.caller.map ({ s with cycle := cycle } : State).responseTo } : State).responses
        cfg pid = (if q = pid then 1 else 0) + (s.toClient (cfg.socket pid)).length +
          (if s.subscribeResponseReceived pid then 1 else 0) := by
    rw [State.responses, hcaller]
    simp only [Option.map_some, State.responseTo, Option.some.injEq,
      cfg.socket_injective.eq_iff]
  refine (h pid).of_cycle hreach hstep ?_ ?_ ?_ ?_ ?_ ?_ ?_
  · rfl
  · rfl
  · change List.countP _ (s.toServer (cfg.socket pid)) +
      (if adding cycle = some pid then 1 else 0) + _ ≤ _
    rw [hresponse, hafter, State.openSteps, State.responses, hbefore]
    simp only [reduceCtorEq, if_false, Option.some.injEq]
    omega
  · intro hsome
    cases hafter.symm.trans hsome
  · exact fun message hmessage => hmessage
  · intro _ context message heq
    cases heq
  · rw [hresponse, State.responses]
    intro hpos
    by_cases heq : q = pid
    · subst heq
      exact Or.inr ⟨slot, hsubscribed⟩
    · rw [if_neg heq] at hpos
      left
      omega

theorem Session.of_main {a : Action} (h : Session cfg s pid) (hreach : (machine cfg).Reachable s)
    (ha : a.caller = some pid) (hstep : step cfg s a = some t) : Session cfg t pid := by
  cases move_of_step hstep with
  | giveUp =>
      cases ha
      have hphase := setPhase_phase_self s pid (.exited 1)
      refine h.of_client (.refl rfl rfl rfl rfl rfl rfl) (Or.inr ?_) ?_ ?_
      · exact congrArg Phase.early hphase
      · rw [hphase]
        exact fun hstays => by cases hstays
      · rw [hphase]
        rintro (hlater | hlater) <;> cases hlater
  | @construct _ _ _ _ buffers memory hphase =>
      cases ha
      refine h.of_client (.refl rfl rfl rfl rfl rfl rfl) (Or.inl ?_) ?_ ?_
      · simp only [Function.update_self, hphase, Phase.early]
      · exact fun _ => congrArg Phase.leaving hphase
      · simp only [Function.update_self, reduceCtorEq, or_self, false_implies]
  | subscribe hphase =>
      cases ha
      exact h.subscribe hphase
  | sleep => exact h
  | begin hphase hreceived =>
      cases ha
      refine h.of_client (.refl rfl rfl rfl rfl rfl rfl) (Or.inr ?_) ?_ fun _ => hreceived
      · exact congrArg Phase.early (setPhase_phase_self s pid .requests)
      · exact fun _ => congrArg Phase.leaving hphase
  | client hphase hclient =>
      exact h.of_quiet hreach (fun _ _ heq => by cases heq) hclient rfl rfl rfl rfl rfl
  | finish hphase =>
      cases ha
      refine h.of_client (.refl rfl rfl rfl rfl rfl rfl) (Or.inr ?_) ?_ fun _ =>
        h.received (Or.inl hphase)
      · exact congrArg Phase.early (setPhase_phase_self s pid .unsubscribe)
      · exact fun _ => congrArg Phase.leaving hphase
  | unsubscribe =>
      cases ha
      exact h.unsubscribe
  | @verify _ _ v hphase =>
      cases ha
      refine h.of_client (.refl rfl rfl rfl rfl rfl rfl) (Or.inr ?_) ?_ ?_
      · simp only [Function.update_self, Phase.early]
      · simp only [Function.update_self, Phase.leaving, Bool.true_eq_false, false_implies]
      · simp only [Function.update_self, reduceCtorEq, or_self, false_implies]
  | interrupt | receive | message | handler | added | send | start | join | dispatcher | worker
  | stop => cases ha

/-- The `main` of another client, and everything that is not a `main`. -/
theorem Session.of_other {a : Action} (h : ∀ pid, Session cfg s pid)
    (hreach : (machine cfg).Reachable s) (ha : a.caller ≠ some pid)
    (hstep : step cfg s a = some t) : Session cfg t pid := by
  have hphase := (sameClient_of_step hreach ha hstep).phase
  have hne : ∀ {p}, a.caller = some p → pid ≠ p := by
    rintro p hp rfl
    exact ha hp
  have hsocket : ∀ {p}, a.caller = some p → cfg.socket pid ≠ cfg.socket p := fun hp hs =>
    hne hp (cfg.socket_injective hs)
  cases move_of_step hstep with
  | giveUp | construct | begin | finish | verify =>
      exact (h pid).of_same (.refl rfl rfl rfl rfl rfl rfl) hphase id
  | subscribe | unsubscribe =>
      exact (h pid).of_same (.refl rfl (sendToServer_of_ne (hsocket rfl)) rfl rfl rfl rfl) hphase id
  | sleep => exact h pid
  | start | worker => exact (h pid).of_same (.refl rfl rfl rfl rfl rfl rfl) hphase id
  | @receive p message rest hnext =>
      refine (h pid).of_same ⟨rfl, rfl, rfl, responses_receive hnext rfl rfl rfl⟩ hphase ?_
      intro hreceived
      by_cases heq : pid = p
      · subst heq
        exact Function.update_self _ _ _
      · exact (Function.update_of_ne heq _ _).trans hreceived
  | send hresponse =>
      exact (h pid).of_same ⟨rfl, rfl, rfl, responses_send hresponse rfl rfl rfl⟩ hphase id
  | message _ hnext hmessage => exact (h pid).of_message hreach hnext hmessage
  | added hadds hhandler => exact Session.of_added h hreach hadds hhandler
  | client _ hcycle | interrupt hcycle | handler _ hcycle | join _ _ _ hcycle | dispatcher _ hcycle
  | stop hcycle =>
      exact (h pid).of_quiet hreach (fun _ _ heq => by cases heq) hcycle rfl rfl rfl rfl rfl

theorem session_of_reachable (h : (machine cfg).Reachable s) (pid : UInt32) :
    Session cfg s pid := by
  have hinit : ∀ s, (machine cfg).init s → ∀ pid, Session cfg s pid := by
    rintro s ⟨memory, rfl⟩ pid
    refine ⟨le_rfl, ?_, ?_, ?_, ?_, ?_⟩
    · rintro ⟨slot, hvalid | hcopy, -⟩
      · cases (getBit_zero slot.isLt).symm.trans hvalid
      · cases (getBit_zero slot.isLt).symm.trans hcopy
    · exact fun hadding => by cases hadding
    · exact fun _ => ⟨trivial, fun message hmessage => by cases hmessage⟩
    · exact fun hpos => absurd hpos (Nat.lt_irrefl 0)
    · rintro (hlater | hlater) <;> cases hlater
  have hkeep : ∀ s a t, (machine cfg).Reachable s → (∀ pid, Session cfg s pid) →
      step cfg s a = some t → ∀ pid, Session cfg t pid := by
    intro s a t hs hsessions hstep pid
    by_cases ha : a.caller = some pid
    · exact (hsessions pid).of_main hs ha hstep
    · exact Session.of_other hsessions hs ha hstep
  exact h.induction (I := fun s => ∀ pid, Session cfg s pid) hinit hkeep pid

/-! ## What the responses say -/

theorem serverPid_of_cycle {a : TransposeServer.Action} {c c' : RequestCycle.State}
    (hstep : TransposeServer.step cfg.uninitialized c a = some c') :
    c'.server.workspace.serverPid = c.server.workspace.serverPid := by
  cases TransposeServer.move_of_step hstep with
  | ignored | add | remove | stop => rfl
  | handler hhandler =>
      have hmove := ClientBankHandoff.handlerMove_of_step hhandler
      generalize c.server.handler = pc at hmove
      cases hmove <;> rfl
  | dispatcher hdispatcher =>
      rcases TransposeServer.server_of_dispatcher hdispatcher with heq | ⟨slot, stats, -, heq⟩ |
        ⟨-, hmove⟩
      · rw [heq]
      · rw [heq]
        rfl
      · generalize c'.server = after at hmove ⊢
        cases hmove <;> rfl
  | client hclient => rw [TransposeServer.server_of_client hclient]
  | interrupt hinterrupt => rw [TransposeServer.server_of_interrupt hinterrupt]

theorem serverPid_of_reachable (h : (machine cfg).Reachable s) :
    s.cycle.server.workspace.serverPid = cfg.serverPid := by
  have hinit : ∀ s, (machine cfg).init s → s.cycle.server.workspace.serverPid = cfg.serverPid := by
    rintro s ⟨memory, rfl⟩
    rfl
  apply h.induction (I := fun s => s.cycle.server.workspace.serverPid = cfg.serverPid) hinit
  intro s a t hs hserver hstep
  cases move_of_step hstep with
  | giveUp | construct | subscribe | sleep | begin | finish | unsubscribe | verify | receive | send
  | start | worker => exact hserver
  | client _ hcycle | interrupt hcycle | message _ _ hcycle | handler _ hcycle | added _ hcycle
  | join _ _ _ hcycle | dispatcher _ hcycle | stop hcycle =>
      exact (serverPid_of_cycle hcycle).trans hserver

/-- What the server answers to the client's subscription. -/
def Config.subscribeResponse (cfg : Config) (pid : UInt32) : ClientServerMessage :=
  .generateSubscribeResponseMessage cfg.serverPid pid (UInt32.ofNat maxClients)
    (UInt32.ofNat maxClients)

structure OwnResponses (cfg : Config) (s : State) : Prop where
  pending : ∀ response, s.response = some response →
    ∃ pid, response = ({ socket := cfg.socket pid }, cfg.subscribeResponse pid)
  sent : ∀ fd, ∀ message ∈ s.toClient fd,
    ∃ pid, fd = cfg.socket pid ∧ message = cfg.subscribeResponse pid

theorem ownResponses_step {a : Action} (hreach : (machine cfg).Reachable s)
    (h : OwnResponses cfg s) (hstep : step cfg s a = some t) : OwnResponses cfg t := by
  have hserver := serverPid_of_reachable (hreach.step hstep)
  cases move_of_step hstep with
  | giveUp | construct | subscribe | sleep | begin | client | finish | unsubscribe | verify
  | interrupt | message | handler | start | join | dispatcher | worker | stop =>
      exact ⟨h.pending, h.sent⟩
  | @receive p message rest hnext =>
      refine ⟨h.pending, ?_⟩
      intro fd m hm
      simp only at hm
      by_cases heq : fd = cfg.socket p
      · subst heq
        rw [Function.update_self] at hm
        exact h.sent _ m (hnext ▸ List.mem_cons_of_mem _ hm)
      · rw [Function.update_of_ne heq] at hm
        exact h.sent fd m hm
  | added hadds hhandler =>
      refine ⟨?_, h.sent⟩
      intro response hresponse
      obtain ⟨slot, hpc⟩ := exists_slot_of_adds hadds
      have hadding : adding s.cycle = some (s.cycle.server.workspace.clientBank slot).id := by
        rw [adding, hpc]
        rfl
      have hcaller := (session_of_reachable hreach _).caller hadding
      simp only at hresponse hserver
      rw [hcaller, Option.map_some, Option.some.injEq] at hresponse
      refine ⟨(s.cycle.server.workspace.clientBank slot).id, ?_⟩
      rw [← hresponse, State.responseTo, hserver, Config.subscribeResponse]
  | @send context message hresponse =>
      obtain ⟨p, heq⟩ := h.pending _ hresponse
      cases heq
      refine ⟨fun response hnone => (by cases hnone), ?_⟩
      intro fd m hm
      simp only at hm
      by_cases heq : fd = cfg.socket p
      · subst heq
        rw [Function.update_self] at hm
        rcases List.mem_append.mp hm with hold | hnew
        · exact h.sent _ m hold
        · exact ⟨p, rfl, List.mem_singleton.mp hnew⟩
      · rw [Function.update_of_ne heq] at hm
        exact h.sent fd m hm

theorem ownResponses_of_reachable (h : (machine cfg).Reachable s) : OwnResponses cfg s := by
  apply h.induction ?_ fun _ _ _ hs hown hstep => ownResponses_step hs hown hstep
  rintro s ⟨memory, rfl⟩
  refine ⟨?_, ?_⟩
  · intro response hresponse
    cases hresponse
  · intro fd message hmessage
    cases hmessage

/-! ## The handshake -/

/-- A subscribed client has one slot, and its context is the one it asked for. -/
theorem subscribed_unique (h : (machine cfg).Reachable s) {slot : Fin maxClients}
    (hsubscribed : Subscribed pid slot s.cycle) :
    (s.cycle.server.workspace.clientBank slot).Complete (cfg.subscription pid) ∧
      ∀ other, Subscribed pid other s.cycle → other = slot := by
  have hslots := TransposeServer.slotInv_of_reachable (cycle_reachable h)
  obtain ⟨req, hcomplete⟩ := (serverInv_of_reachable h).bank.valid_built slot hsubscribed.bit
  have hown := (ownContexts_of_reachable h).bank slot hcomplete.subscribed
  rw [hsubscribed.id] at hown
  refine ⟨hown, ?_⟩
  intro other hother
  exact hslots.distinct other slot (Or.inl hother.bit) (Or.inl hsubscribed.bit)
    (hother.id.trans hsubscribed.id.symm)

/-- The server answers a client once at most, on the client's own connection, and not before the
client has subscribed. From the answer on, and until it unsubscribes, the client has exactly one
slot, with the context it asked for; it makes its requests only then. -/
theorem subscription_handshake (h : (machine cfg).Reachable s) (pid : UInt32) :
    s.responses cfg pid ≤ 1 ∧
      (∀ message ∈ s.toClient (cfg.socket pid), message = cfg.subscribeResponse pid) ∧
      ((s.phase pid).early = true → s.responses cfg pid = 0 ∧ ¬ HasSlot pid s.cycle) ∧
      (0 < s.responses cfg pid → (s.phase pid).leaving = false →
        ∃ slot, Subscribed pid slot s.cycle ∧
          (s.cycle.server.workspace.clientBank slot).Complete (cfg.subscription pid) ∧
          ∀ other, Subscribed pid other s.cycle → other = slot) ∧
      (s.phase pid = .requests ∨ s.phase pid = .unsubscribe → s.responses cfg pid = 1) := by
  have hsession := session_of_reachable h pid
  have honce := hsession.once
  rw [State.openSteps] at honce
  refine ⟨by omega, ?_, ?_, ?_, ?_⟩
  · intro message hmessage
    obtain ⟨p, hsocket, heq⟩ := (ownResponses_of_reachable h).sent _ message hmessage
    rw [cfg.socket_injective hsocket]
    exact heq
  · intro hearly
    rw [hearly, Bool.toNat_true] at honce
    refine ⟨by omega, ?_⟩
    intro hslot
    cases hearly.symm.trans (hsession.present hslot)
  · intro hpos hstays
    obtain ⟨slot, hsubscribed⟩ := hsession.granted hpos hstays
    exact ⟨slot, hsubscribed, subscribed_unique h hsubscribed⟩
  · intro hlater
    have hreceived := hsession.received hlater
    have hpos : 1 ≤ s.responses cfg pid := by
      rw [State.responses, if_pos hreceived]
      omega
    omega

theorem subscription_handshake_small :
    ∃ (s : State) (slot : Fin maxClients), s.phase 7 = .requests ∧ Subscribed 7 slot s.cycle ∧
      (s.cycle.server.workspace.clientBank slot).Complete (Config.small.subscription 7) := by
  obtain ⟨s, hreach, hphase, -⟩ := smallRequest_waits
  obtain ⟨-, -, -, hgranted, hone⟩ := subscription_handshake hreach 7
  have hpos : 0 < s.responses .small 7 := by
    rw [hone (Or.inl hphase)]
    exact Nat.one_pos
  obtain ⟨slot, hsubscribed, hcomplete, -⟩ := hgranted hpos (congrArg Phase.leaving hphase)
  exact ⟨s, slot, hphase, hsubscribed, hcomplete⟩

end MatrixTransposer.Deployment
