import MatrixTransposer.Lib.StepCondition
import MatrixTransposer.Proof.TransposeServer

/-!
# Stopping the server

`running` ends the loop of the dispatcher, but not the loops in which the handler waits for the
dispatcher. A handler that waits with the flag set when the dispatcher leaves, or that comes to wait
with the flag set after it has left, waits for ever; there is no other way for it to be stranded.
-/

namespace MatrixTransposer

namespace ClientBankHandoff

/-- The handler is in one of its loops `while (clientBankUpdateAvailable.load());` -/
def HandlerPc.Waits : HandlerPc → Prop
  | .waitFlag _ _ | .waitAck _ => True
  | _ => False

instance (pc : HandlerPc) : Decidable pc.Waits :=
  match pc with
  | .waitFlag _ _ | .waitAck _ => isTrue trivial
  | .idle | .addSearch _ _ | .addReset _ _ | .addBuild _ _ _ | .removeSearch _ _ | .loadBits _ _
  | .storeBits _ _ _ | .setFlag _ _ | .unsubscribe _ => isFalse id

/-- With its next step the handler comes to such a loop, and finds the flag set there. -/
def HandlerPc.BeginsWait (ws : ServerWorkspace) : HandlerPc → Prop
  | .addBuild _ _ [] => ws.clientBankUpdateAvailable = true
  | .removeSearch clientId i =>
      ws.clientBankUpdateAvailable = true ∧
        ∀ h : i < maxClients, (ws.clientBank ⟨i, h⟩).id = clientId
  | .setFlag _ value => value = false
  | _ => False

instance (ws : ServerWorkspace) (pc : HandlerPc) : Decidable (pc.BeginsWait ws) :=
  match pc with
  | .addBuild _ _ [] => inferInstanceAs (Decidable (_ = true))
  | .removeSearch _ _ => inferInstanceAs (Decidable (_ = true ∧ ∀ _, _))
  | .setFlag _ _ => inferInstanceAs (Decidable (_ = false))
  | .addBuild _ _ (_ :: _) | .idle | .addSearch _ _ | .addReset _ _ | .waitFlag _ _
  | .loadBits _ _ | .storeBits _ _ _ | .waitAck _ | .unsubscribe _ => isFalse id

variable {uninitialized : Int32} {ws ws' : ServerWorkspace} {pc pc' : HandlerPc} {throws : Bool}

theorem waits_of_handlerStep (h : handlerStep uninitialized ws throws pc = some (ws', pc')) :
    ws'.clientBankUpdateAvailable = true ∧ pc'.Waits ↔
      ws.clientBankUpdateAvailable = true ∧ pc.Waits ∨ pc.BeginsWait ws := by
  cases pc with
  | idle => cases h
  | addSearch req i =>
      cases handlerMove_of_step h <;> simp [HandlerPc.Waits, HandlerPc.BeginsWait]
  | addReset req slot =>
      cases h
      simp [HandlerPc.Waits, HandlerPc.BeginsWait]
  | addBuild req slot steps =>
      cases handlerMove_of_step h <;> simp [HandlerPc.Waits, HandlerPc.BeginsWait]
  | removeSearch clientId i =>
      simp only [handlerStep] at h
      split at h
      case isTrue hi =>
        split at h
        case isTrue hid =>
          cases h
          simp [HandlerPc.Waits, HandlerPc.BeginsWait, hid]
        case isFalse hid =>
          cases h
          simp [HandlerPc.Waits, HandlerPc.BeginsWait, hid, hi]
      case isFalse hi =>
        cases h
        simp [HandlerPc.Waits, HandlerPc.BeginsWait, hi]
  | waitFlag slot value =>
      cases hflag : ws.clientBankUpdateAvailable <;>
        simp only [handlerStep, hflag, Bool.false_eq_true, if_true, if_false] at h <;> cases h <;>
        simp [HandlerPc.Waits, HandlerPc.BeginsWait, hflag]
  | loadBits slot value | storeBits slot value bits | unsubscribe slot =>
      cases h
      simp [HandlerPc.Waits, HandlerPc.BeginsWait]
  | setFlag slot value =>
      cases value <;> cases h <;> simp [HandlerPc.Waits, HandlerPc.BeginsWait]
  | waitAck slot =>
      cases hflag : ws.clientBankUpdateAvailable <;>
        simp only [handlerStep, hflag, Bool.false_eq_true, if_true, if_false] at h <;> cases h <;>
        simp [HandlerPc.Waits, HandlerPc.BeginsWait, hflag]

end ClientBankHandoff

namespace TransposeServer

open Lib
open ClientBankHandoff hiding State
open RequestCycle (State)

variable {uninitialized : Int32} {s t : State}

/-- The handler waits for an acknowledgement that nobody will give. -/
def Stranded (s : State) : Prop :=
  s.server.dispatcher = .exited ∧ s.server.workspace.clientBankUpdateAvailable = true ∧
    s.server.handler.Waits

/-- The dispatcher leaves its loop while the handler waits with the flag set, or has left it when
the handler begins to wait so. -/
def Strands (s : State) : Action → Prop
  | .server (.dispatcher _) =>
      s.server.dispatcher = .loop ∧ s.server.running = false ∧
        s.server.workspace.clientBankUpdateAvailable = true ∧ s.server.handler.Waits
  | .server (.handler _) =>
      s.server.dispatcher = .exited ∧ s.server.handler.BeginsWait s.server.workspace
  | _ => False

instance (s : State) (a : Action) : Decidable (Strands s a) :=
  match a with
  | .server (.dispatcher _) => inferInstanceAs (Decidable (_ = _ ∧ _ = _ ∧ _ = _ ∧ _))
  | .server (.handler _) => inferInstanceAs (Decidable (_ = _ ∧ _))
  | .server (.message _ _) | .server .stop | .client _ | .interrupt _ => isFalse id

theorem stranded_dispatcher {times : Option (UInt64 × UInt64)}
    (h : RequestCycle.step uninitialized s (.server (.dispatcher times)) = some t) :
    Stranded t ↔ Stranded s ∨ Strands s (.server (.dispatcher times)) := by
  unfold Stranded Strands
  cases RequestCycle.move_of_step h with
  | serve huse => simp [RequestCycle.State.setClient, huse]
  | leave huse _ hdispatcher =>
      obtain ⟨stats, rfl⟩ := (dispatcherMove_of_step hdispatcher).eq_of_use huse
      simp [huse]
  | scan huse hdispatcher =>
      cases dispatcherMove_of_step hdispatcher with
      | again hpc hrunning | exit hpc hrunning => simp [hpc, hrunning]
      | seen hpc | unseen hpc | take hpc | clear hpc | enter hpc | skip hpc | wrap hpc =>
          simp [hpc]
      | leave hpc => exact absurd hpc (huse _)
  | handle ha => exact absurd rfl (ha times)

theorem stranded_step {a : Action} (hstep : step uninitialized s a = some t) :
    Stranded t ↔ Stranded s ∨ Strands s a := by
  cases move_of_step hstep with
  | ignored => simp [Strands]
  | add hidle | remove hidle => simp [Stranded, Strands, HandlerPc.Waits, hidle]
  | handler hhandler =>
      have hwaits := waits_of_handlerStep hhandler
      unfold Stranded Strands
      rw [hwaits]
      exact and_or_left
  | dispatcher hdispatcher => exact stranded_dispatcher hdispatcher
  | stop => simp [Stranded, Strands]
  | client hclient =>
      obtain ⟨c, -, rfl⟩ := Option.map_eq_some_iff.mp hclient
      simp [Stranded, Strands, RequestCycle.State.setClient]
  | interrupt hinterrupt =>
      obtain ⟨futex, -, rfl⟩ := Option.map_eq_some_iff.mp hinterrupt
      simp [Stranded, Strands, RequestCycle.State.setClient]

/-- Once it is stranded the handler never gets on. -/
theorem stranded_for_ever {acts : List Action} (hs : Stranded s)
    (hrun : (machine uninitialized).exec s acts = some t) : Stranded t :=
  Machine.exec_preserves (I := Stranded)
    (fun _ _ _ hs hstep => (stranded_step hstep).mpr (Or.inl hs)) hs hrun

theorem not_stranded_of_init (hs : (machine uninitialized).init s) : ¬ Stranded s := by
  obtain ⟨serverPid, k, requestRepetitions, rfl⟩ := hs
  simp [Stranded, RequestCycle.initial, ClientBankHandoff.initial]

/-- Client 7 subscribes, the dispatcher takes the update and begins its scan. -/
def subscribed : List Action :=
  .server (.message { socket := 5 }
      { type := .subscribe, senderId := 7, param1 := 6, param2 := 6, param3 := 0 }) ::
    (List.replicate 19 (.server (.handler false)) ++
      List.replicate 4 (.server (.dispatcher none)))

/-- From the scan to the end of the loop, when the server has been stopped. -/
def stopped : List Action := .server .stop :: List.replicate 69 (.server (.dispatcher none))

/-- Client 7 unsubscribes, and the handler publishes the removal. -/
def unsubscribed : List Action :=
  .server (.message { socket := 5 }
      { type := .unsubscribe, senderId := 7, param1 := 0, param2 := 0, param3 := 0 }) ::
    List.replicate 5 (.server (.handler false))

end TransposeServer

end MatrixTransposer
