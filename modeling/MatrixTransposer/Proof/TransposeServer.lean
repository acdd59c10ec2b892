import MatrixTransposer.Proof.RequestHistory
import MatrixTransposer.TransposeServer

/-!
# The steps of the server and its clients

A message that the handler does not ignore is a call of `AddClient` for a client that does not
exist, or of `RemoveClient` for one that does. Every step is a step of the request cycle or changes
nothing, so what is known of the request cycle is known here.
-/

namespace MatrixTransposer.TransposeServer

open Lib
open RequestCycle (State ServerInv ClientInv)

variable {uninitialized : Int32} {s t : State} {pid : UInt32}

inductive Move (uninitialized : Int32) (s : State) : Action → State → Prop where
  | ignored {context : UnixSockIpcContext} {message : ClientServerMessage}
      (hidle : s.server.handler = .idle)
      (hcall : messageCall s.server.workspace context message = none) :
      Move uninitialized s (.server (.message context message)) s
  | add {context : UnixSockIpcContext} {message : ClientServerMessage} {req : SubscribeRequest}
      (hidle : s.server.handler = .idle) (hid : req.clientId = message.senderId)
      (hnew : s.server.workspace.clientExists req.clientId = none)
      (hroom : s.server.workspace.subscribedCount < maxClients) :
      Move uninitialized s (.server (.message context message))
        { s with server := { s.server with handler := .addSearch req 0 } }
  | remove {context : UnixSockIpcContext} {message : ClientServerMessage} {slot : Fin maxClients}
      (hidle : s.server.handler = .idle) (htype : message.type = .unsubscribe)
      (hexists : s.server.workspace.clientExists message.senderId = some slot) :
      Move uninitialized s (.server (.message context message))
        { s with server := { s.server with handler := .removeSearch message.senderId 0 } }
  | handler {throws : Bool} {ws : ServerWorkspace} {pc : ClientBankHandoff.HandlerPc}
      (hstep : ClientBankHandoff.handlerStep uninitialized s.server.workspace throws
        s.server.handler = some (ws, pc)) :
      Move uninitialized s (.server (.handler throws))
        { s with server := { s.server with workspace := ws, handler := pc } }
  | dispatcher {times : Option (UInt64 × UInt64)} {t : State}
      (hstep : RequestCycle.step uninitialized s (.server (.dispatcher times)) = some t) :
      Move uninitialized s (.server (.dispatcher times)) t
  | stop :
      Move uninitialized s (.server .stop) { s with server := { s.server with running := false } }
  | client {pid : UInt32} {t : State}
      (hstep : RequestCycle.step uninitialized s (.client pid) = some t) :
      Move uninitialized s (.client pid) t
  | interrupt {pid : UInt32} {t : State}
      (hstep : RequestCycle.step uninitialized s (.interrupt pid) = some t) :
      Move uninitialized s (.interrupt pid) t

theorem move_of_message {context : UnixSockIpcContext} {message : ClientServerMessage}
    (h : serverStep uninitialized s (.message context message) = some t) :
    Move uninitialized s (.server (.message context message)) t := by
  simp only [serverStep] at h
  split at h
  case h_2 => cases h
  case h_1 hidle =>
    split at h
    case h_1 hcall =>
      cases h
      exact .ignored hidle hcall
    case h_2 call hcall =>
      unfold messageCall at hcall
      cases htype : message.type with
      | subscribe =>
          simp only [htype, ClientServerMessage.processSubscribeMessage, ne_eq, not_true_eq_false,
            if_false] at hcall
          split at hcall
          case h_1 => cases hcall
          case h_2 hnew =>
            cases hcall
            obtain ⟨server, hadd, rfl⟩ := Option.map_eq_some_iff.mp h
            cases ClientBankHandoff.move_of_step hadd with
            | add _ hroom => exact .add hidle rfl hnew hroom
      | unsubscribe =>
          simp only [htype, ClientServerMessage.processUnsubscribeMessage, ne_eq,
            not_true_eq_false, if_false] at hcall
          obtain ⟨slot, hexists, rfl⟩ := Option.map_eq_some_iff.mp hcall
          obtain ⟨server, hremove, rfl⟩ := Option.map_eq_some_iff.mp h
          cases ClientBankHandoff.move_of_step hremove with
          | remove => exact .remove hidle htype hexists
      | subscribeResponse | unknown =>
          simp only [htype] at hcall
          cases hcall

theorem move_of_step {a : Action} (h : step uninitialized s a = some t) :
    Move uninitialized s a t := by
  cases a with
  | server a =>
      cases a with
      | message context message => exact move_of_message h
      | handler throws =>
          obtain ⟨server, hserver, rfl⟩ := Option.map_eq_some_iff.mp h
          obtain ⟨⟨ws, pc⟩, hstep, rfl⟩ := Option.map_eq_some_iff.mp hserver
          exact .handler hstep
      | dispatcher times => exact .dispatcher h
      | stop =>
          cases h
          exact .stop
  | client pid => exact .client h
  | interrupt pid => exact .interrupt h

/-! ## As a run of the request cycle -/

/-- A step that is not one of the request cycle changes nothing. -/
theorem step_cases {a : Action} (hstep : step uninitialized s a = some t) :
    t = s ∧ (∀ pid, observe pid s a = []) ∨
      ∃ b, RequestCycle.step uninitialized s b = some t ∧
        ∀ pid, observe pid s a = RequestCycle.observe pid s b := by
  cases move_of_step hstep with
  | ignored => exact Or.inl ⟨rfl, fun _ => rfl⟩
  | @add context message req hidle _ _ hroom =>
      refine Or.inr ⟨.server (.add req), ?_, fun _ => rfl⟩
      simp [RequestCycle.step, ClientBankHandoff.step, hidle, hroom]
  | @remove context message slot hidle =>
      refine Or.inr ⟨.server (.remove message.senderId), ?_, fun _ => rfl⟩
      simp [RequestCycle.step, ClientBankHandoff.step, hidle]
  | @handler throws ws pc hhandler =>
      refine Or.inr ⟨.server (.handler throws), ?_, fun _ => rfl⟩
      simp [RequestCycle.step, ClientBankHandoff.step, hhandler]
  | dispatcher hdispatcher => exact Or.inr ⟨_, hdispatcher, fun _ => rfl⟩
  | stop => exact Or.inr ⟨.server .stop, rfl, fun _ => rfl⟩
  | client hclient => exact Or.inr ⟨_, hclient, fun _ => rfl⟩
  | interrupt hinterrupt => exact Or.inr ⟨_, hinterrupt, fun _ => rfl⟩

theorem serverInv_step {a : Action} (h : ServerInv s) (hstep : step uninitialized s a = some t) :
    ServerInv t := by
  rcases step_cases hstep with ⟨rfl, -⟩ | ⟨b, hb, -⟩
  · exact h
  · exact RequestCycle.serverInv_step h hb

/-- A run shows of every client what some run of the request cycle shows. -/
theorem exists_requestCycle_exec {acts : List Action}
    (hrun : (machine uninitialized).exec s acts = some t) :
    ∃ cycle, (RequestCycle.machine uninitialized).exec s cycle = some t ∧
      ∀ pid, (RequestCycle.machine uninitialized).trace (RequestCycle.observe pid) s cycle =
        (machine uninitialized).trace (observe pid) s acts := by
  induction acts generalizing s with
  | nil => exact ⟨[], hrun, fun _ => rfl⟩
  | cons a as ih =>
      obtain ⟨r, hfirst, hrest⟩ := Machine.exec_cons_eq_some.mp hrun
      obtain ⟨cycle, hcycle, htrace⟩ := ih hrest
      rcases step_cases hfirst with ⟨rfl, hshows⟩ | ⟨b, hb, hshows⟩
      · refine ⟨cycle, hcycle, ?_⟩
        intro pid
        rw [Machine.trace_cons hfirst, hshows, List.nil_append]
        exact htrace pid
      · refine ⟨b :: cycle, Machine.exec_cons_eq_some.mpr ⟨r, hb, hcycle⟩, ?_⟩
        have hb' : (RequestCycle.machine uninitialized).step s b = some r := hb
        intro pid
        rw [Machine.trace_cons hfirst, Machine.trace_cons hb', hshows, htrace]

theorem requestCycle_reachable (h : (machine uninitialized).Reachable s) :
    (RequestCycle.machine uninitialized).Reachable s := by
  obtain ⟨s₀, acts, hinit, hrun⟩ := h
  obtain ⟨cycle, hcycle, -⟩ := exists_requestCycle_exec hrun
  exact ⟨s₀, cycle, hinit, hcycle⟩

/-- In any run from the start, each client's history is made of rounds. -/
theorem clientInv_of_exec (hinit : (machine uninitialized).init s) {acts : List Action}
    (hrun : (machine uninitialized).exec s acts = some t) (pid : UInt32) :
    ClientInv t pid ((machine uninitialized).trace (observe pid) s acts) := by
  obtain ⟨cycle, hcycle, htrace⟩ := exists_requestCycle_exec hrun
  rw [← htrace]
  exact RequestCycle.clientInv_of_exec hinit hcycle pid

end MatrixTransposer.TransposeServer
