import MatrixTransposer.Proof.DeploymentMain

/-!
# Whose context is in a slot

Each client sends nothing but its own subscription and its own unsubscription, on its own
connection. So every request that `AddClient` works on is the one its sender composed from its
arguments, and every subscribed slot holds what that request asks for.
-/

namespace MatrixTransposer

/-- The request that the running call of `AddClient` was given. -/
def ClientBankHandoff.HandlerPc.adding : ClientBankHandoff.HandlerPc → Option SubscribeRequest
  | .addSearch req _ | .addReset req _ | .addBuild req _ _ => some req
  | _ => none

namespace Deployment

open Lib
open ClientBankHandoff (HandlerMove HandlerPc SlotFacts)

variable {cfg : Config} {s t : State} {pid : UInt32}

/-- The request of the client's subscription. -/
def Config.subscription (cfg : Config) (pid : UInt32) : SubscribeRequest where
  clientId := pid
  m := (cfg.arguments pid).m
  n := (cfg.arguments pid).n
  k := (cfg.arguments pid).k
  context := { socket := cfg.socket pid }

/-- A message that the client sends. -/
def Config.Sends (cfg : Config) (pid : UInt32) (message : ClientServerMessage) : Prop :=
  message = cfg.subscribeMessage pid ∨ message = cfg.unsubscribeMessage pid

def OwnMessages (cfg : Config) (s : State) : Prop :=
  ∀ fd, ∀ message ∈ s.toServer fd, ∃ pid, pid ≠ 0 ∧ fd = cfg.socket pid ∧ cfg.Sends pid message

def OwnRequest (cfg : Config) (pc : HandlerPc) : Prop :=
  ∀ req, pc.adding = some req → req.clientId ≠ 0 ∧ req = cfg.subscription req.clientId

def OwnBank (cfg : Config) (ws : ServerWorkspace) : Prop :=
  ∀ slot, (ws.clientBank slot).subscribed = true →
    (ws.clientBank slot).Complete (cfg.subscription (ws.clientBank slot).id)

structure OwnContexts (cfg : Config) (s : State) : Prop where
  messages : OwnMessages cfg s
  request : OwnRequest cfg s.cycle.server.handler
  bank : OwnBank cfg s.cycle.server.workspace

theorem Config.Sends.senderId {message : ClientServerMessage} (h : cfg.Sends pid message) :
    message.senderId = pid := by
  rcases h with rfl | rfl <;> rfl

theorem Config.Sends.eq_subscribeMessage {message : ClientServerMessage}
    (h : cfg.Sends pid message) (htype : message.type = .subscribe) :
    message = cfg.subscribeMessage pid := by
  rcases h with rfl | rfl
  · rfl
  · cases htype

/-! ## The handler -/

section Bank

variable {ws ws' : ServerWorkspace} {pc pc' : HandlerPc} {uninitialized : Int32}

theorem ownBank_setClient {slot : Fin maxClients} {ctx : ClientContext} (h : OwnBank cfg ws)
    (hctx : ctx.subscribed = true → ctx.Complete (cfg.subscription ctx.id)) :
    OwnBank cfg (ws.setClient slot ctx) := by
  intro i hi
  by_cases heq : i = slot
  · subst heq
    rw [ServerWorkspace.setClient_self] at hi ⊢
    exact hctx hi
  · rw [ServerWorkspace.setClient_of_ne _ heq] at hi ⊢
    exact h i hi

/-- The context is marked as subscribed by the last statement that builds it. -/
theorem complete_of_slotFacts {req : SubscribeRequest} {slot : Fin maxClients}
    {steps : List BuildStep} (h : SlotFacts ws (.addBuild req slot steps))
    (hsubscribed : (ws.clientBank slot).subscribed = true) :
    (ws.clientBank slot).Complete req := by
  obtain ⟨-, before, hsteps, hprogress⟩ := h
  cases steps with
  | nil =>
      rw [List.append_nil] at hsteps
      rw [hsteps] at hprogress
      exact complete_of_progress hprogress
  | cons step steps =>
      have hnot := ClientBankHandoff.not_subscribed_of_progress hsteps hprogress
      cases hsubscribed.symm.trans hnot

theorem ownBank_of_move (hmove : HandlerMove uninitialized ws pc ws' pc') (hslot : SlotFacts ws pc)
    (hrequest : OwnRequest cfg pc) (h : OwnBank cfg ws) : OwnBank cfg ws' := by
  have hafter := ClientBankHandoff.slotFacts_of_move hmove hslot
  cases hmove with
  | reset => exact ownBank_setClient h (by simp [ClientContext.new])
  | ran hrun =>
      apply ownBank_setClient h
      intro hsubscribed
      have hcomplete := complete_of_slotFacts hafter
      rw [ServerWorkspace.setClient_self] at hcomplete
      rw [(hcomplete hsubscribed).id, ← (hrequest _ rfl).2]
      exact hcomplete hsubscribed
  | removed =>
      apply ownBank_setClient h
      intro hsubscribed
      cases hsubscribed
  | taken | free | unassigned | built | thrown | other | found | spin | enter | loadBits
  | storeBits | added | removing | spinAck | acked => exact h

theorem ownRequest_of_move (hmove : HandlerMove uninitialized ws pc ws' pc')
    (h : OwnRequest cfg pc) : OwnRequest cfg pc' := by
  cases hmove with
  | taken | free | unassigned | reset | ran => exact h
  | built | thrown | other | found | spin | enter | loadBits | storeBits | added | removing
  | spinAck | acked | removed => exact fun req hreq => by cases hreq

theorem ownBank_serve {slot : Fin maxClients} {stats : ClientStats} (h : OwnBank cfg ws) :
    OwnBank cfg (ClientBankHandoff.serve ws slot stats) := by
  apply ownBank_setClient h
  intro hsubscribed
  have hcomplete := h slot hsubscribed
  exact { hcomplete with }

end Bank

/-! ## The server -/

/-- What the handler begins with a message. -/
theorem begins_of_message {uninitialized : Int32} {c c' : RequestCycle.State}
    {context : UnixSockIpcContext} {message : ClientServerMessage}
    (h : TransposeServer.serverStep uninitialized c (.message context message) = some c') :
    c.server.handler = .idle ∧
      (c' = c ∨
        (message.type = .subscribe ∧ c.server.workspace.clientExists message.senderId = none ∧
          c' = { c with server := { c.server with
            handler := .addSearch { clientId := message.senderId, m := message.param1
                                    n := message.param2, k := message.param3
                                    context := context } 0 } }) ∨
        (message.type = .unsubscribe ∧
          (∃ slot, c.server.workspace.clientExists message.senderId = some slot) ∧
          c' = { c with server := { c.server with
            handler := .removeSearch message.senderId 0 } })) := by
  simp only [TransposeServer.serverStep] at h
  split at h
  case h_2 => cases h
  case h_1 hidle =>
    refine ⟨hidle, ?_⟩
    split at h
    case h_1 =>
      cases h
      exact Or.inl rfl
    case h_2 call hcall =>
      unfold TransposeServer.messageCall at hcall
      cases htype : message.type with
      | subscribe =>
          simp only [htype, ClientServerMessage.processSubscribeMessage, ne_eq, not_true_eq_false,
            if_false] at hcall
          split at hcall
          case h_1 => cases hcall
          case h_2 hnew =>
            cases hcall
            obtain ⟨server, hadd, rfl⟩ := Option.map_eq_some_iff.mp h
            cases ClientBankHandoff.move_of_step hadd with
            | add => exact Or.inr (Or.inl ⟨rfl, hnew, rfl⟩)
      | unsubscribe =>
          simp only [htype, ClientServerMessage.processUnsubscribeMessage, ne_eq,
            not_true_eq_false, if_false] at hcall
          obtain ⟨slot, hexists, rfl⟩ := Option.map_eq_some_iff.mp hcall
          obtain ⟨server, hremove, rfl⟩ := Option.map_eq_some_iff.mp h
          cases ClientBankHandoff.move_of_step hremove with
          | remove => exact Or.inr (Or.inr ⟨rfl, ⟨slot, hexists⟩, rfl⟩)
      | subscribeResponse | unknown =>
          simp only [htype] at hcall
          cases hcall

/-- The dispatcher leaves the handler where it is, and of a context it changes the statistics. -/
theorem workspace_of_dispatcher {uninitialized : Int32} {c c' : RequestCycle.State}
    {times : Option (UInt64 × UInt64)}
    (h : RequestCycle.step uninitialized c (.server (.dispatcher times)) = some c') :
    c'.server.handler = c.server.handler ∧
      (c'.server.workspace.clientBank = c.server.workspace.clientBank ∨
        ∃ slot stats, c'.server.workspace =
          ClientBankHandoff.serve c.server.workspace slot stats) := by
  cases RequestCycle.move_of_step h with
  | serve => exact ⟨rfl, Or.inl rfl⟩
  | leave huse _ hdispatcher =>
      obtain ⟨stats, rfl⟩ :=
        (ClientBankHandoff.dispatcherMove_of_step hdispatcher).eq_of_use huse
      exact ⟨rfl, Or.inr ⟨_, stats, rfl⟩⟩
  | scan huse hdispatcher =>
      cases ClientBankHandoff.dispatcherMove_of_step hdispatcher with
      | leave hpc => exact absurd hpc (huse _)
      | again | exit | seen | unseen | take | clear | enter | skip | wrap =>
          exact ⟨rfl, Or.inl rfl⟩
  | handle ha => exact absurd rfl (ha times)

/-- A step of the server and its clients keeps the requests and the contexts, given that a message
it handles is one of its sender's own. -/
theorem own_of_cycle {a : TransposeServer.Action} {c c' : RequestCycle.State}
    (hserver : RequestCycle.ServerInv c) (hrequest : OwnRequest cfg c.server.handler)
    (hbank : OwnBank cfg c.server.workspace)
    (hmessage : ∀ context message, a = .server (.message context message) →
      ∃ pid, pid ≠ 0 ∧ context = { socket := cfg.socket pid } ∧ cfg.Sends pid message)
    (hstep : TransposeServer.step cfg.uninitialized c a = some c') :
    OwnRequest cfg c'.server.handler ∧ OwnBank cfg c'.server.workspace := by
  cases a with
  | client pid =>
      obtain ⟨client, -, rfl⟩ := Option.map_eq_some_iff.mp hstep
      exact ⟨hrequest, hbank⟩
  | interrupt pid =>
      obtain ⟨futex, -, rfl⟩ := Option.map_eq_some_iff.mp hstep
      exact ⟨hrequest, hbank⟩
  | server a =>
      cases a with
      | message context message =>
          obtain ⟨pid, hpid, rfl, hsends⟩ := hmessage context message rfl
          obtain ⟨-, rfl | ⟨htype, -, rfl⟩ | ⟨-, -, rfl⟩⟩ := begins_of_message hstep
          · exact ⟨hrequest, hbank⟩
          · refine ⟨?_, hbank⟩
            rintro req ⟨⟩
            rw [hsends.eq_subscribeMessage htype]
            exact ⟨hpid, rfl⟩
          · exact ⟨fun req hreq => (by cases hreq), hbank⟩
      | handler throws =>
          obtain ⟨server, hhandler, rfl⟩ := Option.map_eq_some_iff.mp hstep
          cases ClientBankHandoff.move_of_step hhandler with
          | handler hmove =>
              exact ⟨ownRequest_of_move hmove hrequest,
                ownBank_of_move hmove hserver.bank.slot hrequest hbank⟩
      | dispatcher times =>
          have hmove : RequestCycle.step cfg.uninitialized c (.server (.dispatcher times)) =
              some c' := hstep
          obtain ⟨hhandler, hcases⟩ := workspace_of_dispatcher hmove
          rw [hhandler]
          refine ⟨hrequest, ?_⟩
          rcases hcases with heq | ⟨slot, stats, heq⟩
          · intro i hi
            rw [heq] at hi ⊢
            exact hbank i hi
          · rw [heq]
            exact ownBank_serve hbank
      | stop =>
          cases hstep
          exact ⟨hrequest, hbank⟩

/-! ## The sockets -/

theorem ownMessages_send (h : OwnMessages cfg s) (hpid : pid ≠ 0) {message : ClientServerMessage}
    (hsends : cfg.Sends pid message) : OwnMessages cfg (s.sendToServer (cfg.socket pid) message) := by
  intro fd m hm
  by_cases heq : fd = cfg.socket pid
  · subst heq
    simp only [State.sendToServer, Function.update_self, List.mem_append, List.mem_singleton] at hm
    rcases hm with hm | rfl
    · exact h _ m hm
    · exact ⟨pid, hpid, rfl, hsends⟩
  · simp only [State.sendToServer, Function.update_of_ne heq] at hm
    exact h fd m hm

theorem ownMessages_receive (h : OwnMessages cfg s) {fd : Nat} {message : ClientServerMessage}
    {rest : List ClientServerMessage} (hnext : s.toServer fd = message :: rest)
    (ht : t.toServer = Function.update s.toServer fd rest) : OwnMessages cfg t := by
  intro fd' m hm
  rw [ht] at hm
  by_cases heq : fd' = fd
  · subst heq
    rw [Function.update_self] at hm
    apply h fd' m
    rw [hnext]
    exact List.mem_cons_of_mem _ hm
  · rw [Function.update_of_ne heq] at hm
    exact h fd' m hm

theorem ClientFacts.pid_ne_zero (h : ClientFacts cfg s pid) (hbuilt : (s.buffers pid).isSome = true) :
    pid ≠ 0 := by
  obtain ⟨buffers, hbuffers⟩ := Option.isSome_iff_exists.mp hbuilt
  exact (h.buffers buffers hbuffers).1

/-! ## The whole -/

theorem OwnContexts.of_cycle {a : TransposeServer.Action} {cycle : RequestCycle.State}
    (hreach : (machine cfg).Reachable s) (h : OwnContexts cfg s)
    (ha : ∀ context message, a ≠ .server (.message context message))
    (hstep : TransposeServer.step cfg.uninitialized s.cycle a = some cycle)
    (hmessages : t.toServer = s.toServer) (hcycle : t.cycle = cycle) : OwnContexts cfg t := by
  obtain ⟨hrequest, hbank⟩ := own_of_cycle (serverInv_of_reachable hreach) h.request h.bank
    (fun context message heq => absurd heq (ha context message)) hstep
  refine ⟨?_, hcycle ▸ hrequest, hcycle ▸ hbank⟩
  intro fd
  rw [hmessages]
  exact h.messages fd

theorem ownContexts_step {a : Action} (hreach : (machine cfg).Reachable s) (h : OwnContexts cfg s)
    (hstep : step cfg s a = some t) : OwnContexts cfg t := by
  have hsent : ∀ {p}, (s.buffers p).isSome = true → p ≠ 0 := fun {p} hbuilt =>
    (clientFacts_of_reachable hreach p).pid_ne_zero hbuilt
  cases move_of_step hstep with
  | giveUp | construct | sleep | begin | finish | verify | receive | send | start | worker =>
      exact ⟨h.messages, h.request, h.bank⟩
  | @subscribe p hphase =>
      have hfacts := (clientFacts_of_reachable hreach p).phase
      rw [hphase] at hfacts
      exact ⟨ownMessages_send h.messages (hsent hfacts.2) (Or.inl rfl), h.request, h.bank⟩
  | @unsubscribe p hphase =>
      have hfacts := (clientFacts_of_reachable hreach p).phase
      rw [hphase] at hfacts
      exact ⟨ownMessages_send h.messages (hsent hfacts.2) (Or.inr rfl), h.request, h.bank⟩
  | @message fd message rest cycle _ hnext hmessage =>
      obtain ⟨p, hp, rfl, hsends⟩ := h.messages fd message (hnext ▸ List.mem_cons_self)
      obtain ⟨hrequest, hbank⟩ := own_of_cycle (serverInv_of_reachable hreach) h.request h.bank
        (fun context m heq => by cases heq; exact ⟨p, hp, rfl, hsends⟩) hmessage
      exact ⟨ownMessages_receive h.messages hnext rfl, hrequest, hbank⟩
  | client _ hcycle | interrupt hcycle | handler _ hcycle | added _ hcycle | join _ _ _ hcycle
  | dispatcher _ hcycle | stop hcycle =>
      exact OwnContexts.of_cycle hreach h (fun _ _ heq => by cases heq) hcycle rfl rfl

theorem ownContexts_of_reachable (h : (machine cfg).Reachable s) : OwnContexts cfg s := by
  apply h.induction ?_ fun _ _ _ hs hown hstep => ownContexts_step hs hown hstep
  rintro s ⟨memory, rfl⟩
  refine ⟨?_, ?_, ?_⟩
  · intro fd message hmessage
    cases hmessage
  · intro req hreq
    cases hreq
  · intro slot hslot
    cases hslot

end Deployment

end MatrixTransposer
