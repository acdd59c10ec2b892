import MatrixTransposer.Proof.RequestProgress

/-!
# The calls of the handler end

`AddClient` and `RemoveClient` wait for the dispatcher to clear the flag. Every other step brings
the call nearer to its end, and the dispatcher clears an announced update in the lap after the one
in which it is announced at the latest.
-/

namespace MatrixTransposer

open Lib

namespace ClientBankHandoff

open ServerWorkspace

variable {uninitialized : Int32} {ws ws' : ServerWorkspace} {pc pc' : HandlerPc}
  {slot : Fin maxClients} {throws : Bool}

/-- How many steps the running call makes at most, not counting those in which it waits. -/
def HandlerPc.callLeft : HandlerPc → Nat
  | .idle => 0
  | .addSearch req i => (maxClients - i) + ((buildSteps req.k).length + 9)
  | .addReset req _ => (buildSteps req.k).length + 8
  | .addBuild _ _ steps => steps.length + 7
  | .removeSearch _ i => (maxClients - i) + 7
  | .waitFlag _ _ => 6
  | .loadBits _ _ => 5
  | .storeBits _ _ _ => 4
  | .setFlag _ _ => 3
  | .waitAck _ => 2
  | .unsubscribe _ => 1

/-- The call loops on the flag. -/
def HandlerPc.waits : HandlerPc → Bool
  | .waitFlag _ _ | .waitAck _ => true
  | _ => false

theorem length_buildSteps (k : UInt32) : (buildSteps k).length = 2 * k.toNat + 12 := by
  have hpushes : ∀ indices : List UInt32, (indices.flatMap fun bufferIndex =>
      [BuildStep.pushMatrixBuffer bufferIndex, .pushMatrixBufferTr bufferIndex]).length =
        2 * indices.length := by
    intro indices
    induction indices with
    | nil => rfl
    | cons bufferIndex indices ih =>
        rw [List.flatMap_cons, List.length_append, ih, List.length_cons]
        simp only [List.length_cons, List.length_nil]
        omega
  have hindices : (upTo 0 k).length = k.toNat := by
    rw [upTo, List.length_map, List.length_range', UInt32.toNat_zero, Nat.sub_zero]
  rw [buildSteps, List.length_append, List.length_append, hpushes, hindices]
  simp only [List.length_cons, List.length_nil]
  omega

theorem HandlerPc.callLeft_eq_zero : pc.callLeft = 0 ↔ pc = .idle := by
  constructor
  · intro h
    cases pc <;> simp only [callLeft] at h <;> first | rfl | omega
  · rintro rfl
    rfl

/-- A step of the call brings it nearer to its end, unless it waits for the flag. -/
theorem callLeft_of_step (hstep : handlerStep uninitialized ws throws pc = some (ws', pc')) :
    pc'.callLeft < pc.callLeft ∨
      pc.waits = true ∧ ws.clientBankUpdateAvailable = true ∧ ws' = ws ∧ pc' = pc := by
  cases pc with
  | idle => cases hstep
  | addSearch req i =>
      left
      simp only [handlerStep] at hstep
      split at hstep
      case isTrue hi =>
        split at hstep
        case isTrue =>
          cases hstep
          simp only [HandlerPc.callLeft]
          omega
        case isFalse =>
          cases hstep
          simp only [HandlerPc.callLeft]
          omega
      case isFalse =>
        obtain ⟨slot, -, heq⟩ := Option.map_eq_some_iff.mp hstep
        cases heq
        simp only [HandlerPc.callLeft]
        omega
  | addReset req slot =>
      cases hstep
      exact Or.inl (Nat.lt_succ_self _)
  | addBuild req slot steps =>
      left
      cases steps with
      | nil =>
          cases hstep
          exact Nat.lt_succ_self _
      | cons step steps =>
          simp only [handlerStep] at hstep
          split at hstep
          case h_1 =>
            cases hstep
            exact Nat.succ_pos _
          case h_2 =>
            cases hstep
            simp only [HandlerPc.callLeft, List.length_cons]
            omega
  | removeSearch clientId i =>
      left
      simp only [handlerStep] at hstep
      split at hstep
      case isTrue hi =>
        split at hstep
        case isTrue =>
          cases hstep
          simp only [HandlerPc.callLeft]
          omega
        case isFalse =>
          cases hstep
          simp only [HandlerPc.callLeft]
          omega
      case isFalse =>
        cases hstep
        simp only [HandlerPc.callLeft]
        omega
  | waitFlag slot value =>
      cases hflag : ws.clientBankUpdateAvailable with
      | true =>
          simp only [handlerStep, hflag, if_true] at hstep
          cases hstep
          exact Or.inr ⟨rfl, rfl, rfl, rfl⟩
      | false =>
          simp only [handlerStep, hflag, Bool.false_eq_true, if_false] at hstep
          cases hstep
          exact Or.inl (Nat.lt_succ_self _)
  | loadBits slot value | storeBits slot value bits | unsubscribe slot =>
      cases hstep
      exact Or.inl (Nat.lt_succ_self _)
  | setFlag slot value =>
      left
      cases value with
      | true =>
          cases hstep
          exact Nat.succ_pos _
      | false =>
          cases hstep
          exact Nat.lt_succ_self _
  | waitAck slot =>
      cases hflag : ws.clientBankUpdateAvailable with
      | true =>
          simp only [handlerStep, hflag, if_true] at hstep
          cases hstep
          exact Or.inr ⟨rfl, rfl, rfl, rfl⟩
      | false =>
          simp only [handlerStep, hflag, Bool.false_eq_true, if_false] at hstep
          cases hstep
          exact Or.inl (Nat.lt_succ_self _)

/-- A call that is running can always go on. -/
theorem handlerStep_isSome (hslot : SlotFacts ws pc) (hpc : pc ≠ .idle) (throws : Bool) :
    (handlerStep uninitialized ws throws pc).isSome = true := by
  cases pc with
  | idle => exact absurd rfl hpc
  | addSearch req i =>
      obtain ⟨j, hle, -⟩ := hslot
      have hi : i < maxClients := Nat.lt_of_le_of_lt hle j.isLt
      simp only [handlerStep, hi, dite_true]
      split <;> rfl
  | addBuild req slot steps =>
      cases steps with
      | nil => rfl
      | cons step steps =>
          simp only [handlerStep]
          split <;> rfl
  | removeSearch clientId i =>
      simp only [handlerStep]
      split
      · split <;> rfl
      · rfl
  | waitFlag slot value =>
      simp only [handlerStep]
      split <;> rfl
  | waitAck slot =>
      simp only [handlerStep]
      split <;> rfl
  | addReset | loadBits | storeBits | setFlag | unsubscribe => rfl

end ClientBankHandoff

/-! ## The flag is cleared -/

namespace RequestCycle

open ClientBankHandoff hiding State Action machine step initial move_of_step

variable {uninitialized : Int32} {s t : State}

/-- The dispatcher is about to look at the flag, or has seen it set. -/
def AtFlag (pc : DispatcherPc) : Prop :=
  pc = .loop ∨ pc = .loadFlag ∨ pc = .loadBits ∨ pc = .clearFlag

/-- An update is announced, and takes at most `n` steps of the dispatcher to be cleared. -/
structure Announced (uninitialized : Int32) (s : State) (n : Nat) : Prop where
  reachable : (machine uninitialized).Reachable s
  flag : s.server.workspace.clientBankUpdateAvailable = true
  budget : AtFlag s.server.dispatcher ∧ lapLeft s ≤ n ∨ lapLeft s + lap ≤ n

theorem dispatcher_of_other {a : Action} (ha : a.isDispatcher = false)
    (hstep : step uninitialized s a = some t) : t.server.dispatcher = s.server.dispatcher := by
  cases move_of_step hstep with
  | client | interrupt => rfl
  | serve | leave | scan => cases ha
  | handle hother hhandle => exact (dispatcher_of_handle hother hhandle).1

/-- A dispatcher that has exited does not come back. -/
theorem exited_of_step {a : Action} (h : s.server.dispatcher = .exited)
    (hstep : step uninitialized s a = some t) : t.server.dispatcher = .exited := by
  cases move_of_step hstep with
  | client | interrupt => exact h
  | serve huse | leave huse => cases h.symm.trans huse
  | scan _ hdispatcher =>
      simp only [ClientBankHandoff.dispatcherStep, h] at hdispatcher
      cases hdispatcher
  | handle hother hhandle => exact (dispatcher_of_handle hother hhandle).1.trans h

/-- A dispatcher that is about to look at the flag goes on to clear it. -/
theorem atFlag_dispatcher {times : Option (UInt64 × UInt64)}
    (hflag : s.server.workspace.clientBankUpdateAvailable = true)
    (hat : AtFlag s.server.dispatcher)
    (hstep : step uninitialized s (.server (.dispatcher times)) = some t) :
    AtFlag t.server.dispatcher ∨ t.server.dispatcher = .exited ∨
      t.server.workspace.clientBankUpdateAvailable = false := by
  have hpcs : ∀ {pc}, s.server.dispatcher = pc → AtFlag pc := fun heq => heq ▸ hat
  cases move_of_step hstep with
  | serve huse | leave huse =>
      rcases hpcs huse with h | h | h | h <;> cases h
  | scan huse hdispatcher =>
      cases dispatcherMove_of_step hdispatcher with
      | again => exact Or.inl (Or.inr (Or.inl rfl))
      | exit => exact Or.inr (Or.inl rfl)
      | seen => exact Or.inl (Or.inr (Or.inr (Or.inl rfl)))
      | unseen _ hclear => cases hflag.symm.trans hclear
      | take => exact Or.inl (Or.inr (Or.inr (Or.inr rfl)))
      | clear => exact Or.inr (Or.inr rfl)
      | enter hpc | skip hpc | wrap hpc | leave hpc =>
          rcases hpcs hpc with h | h | h | h <;> cases h
  | handle ha => exact absurd rfl (ha times)

theorem announced_step {a : Action} {n : Nat} (h : Announced uninitialized s n)
    (hstep : step uninitialized s a = some t) :
    (t.server.dispatcher = .exited ∨ t.server.workspace.clientBankUpdateAvailable = false) ∨
      ∃ m, Announced uninitialized t m ∧ m + (if a.isDispatcher then 1 else 0) ≤ n := by
  obtain ⟨hreach, hflag, hbudget⟩ := h
  have hreach' : (machine uninitialized).Reachable t := hreach.step hstep
  cases hflag' : t.server.workspace.clientBankUpdateAvailable with
  | false => exact Or.inl (Or.inr rfl)
  | true =>
      cases ha : a.isDispatcher with
      | false =>
          refine Or.inr ⟨n, ⟨hreach', hflag', ?_⟩, by simp⟩
          rw [dispatcher_of_other ha hstep, lapLeft_other hreach ha hstep]
          exact hbudget
      | true =>
          obtain ⟨times, rfl⟩ := Action.eq_dispatcher ha
          have hlap := lapLeft_dispatcher hreach hstep
          simp only [if_true]
          rcases hbudget with ⟨hat, hleft⟩ | hleft
          · -- the lap on which the update is taken
            rcases atFlag_dispatcher hflag hat hstep with hat' | hexited | hclear
            · rcases hlap with hless | ⟨-, i, hi, hpc⟩
              · exact Or.inr ⟨lapLeft t, ⟨hreach', hflag', Or.inl ⟨hat', le_rfl⟩⟩, by omega⟩
              · rw [hpc] at hat
                rcases hat with h | h | h | h <;> cases h
            · exact Or.inl (Or.inl hexited)
            · cases hflag'.symm.trans hclear
          · right
            rcases hlap with hless | ⟨hpc, -⟩
            · exact ⟨lapLeft t + lap, ⟨hreach', hflag', Or.inr le_rfl⟩, by omega⟩
            · have hlt := lapLeft_lt_lap t
              exact ⟨lapLeft t, ⟨hreach', hflag', Or.inl ⟨Or.inl hpc, le_rfl⟩⟩, by omega⟩

end RequestCycle

end MatrixTransposer
