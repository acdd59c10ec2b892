import MatrixTransposer.Proof.ClientBank

/-!
# The slot `AddClient` writes

The search for a free slot assigns its result only if there is one, and the assignment to the slot
that follows is not made conditional on that. So `AddClient` respects the bank exactly while some
bit is clear: with all of them set it overwrites a live slot or memory outside of the bank.
-/

namespace MatrixTransposer.ServerWorkspace

variable {env : Environment} {ws : ServerWorkspace} {req : SubscribeRequest}

/-- A call writes only a slot of the bank whose bit is clear, and when there is none it refuses and
leaves everything as it was. -/
def KeepsBank (env : Environment) (ws : ServerWorkspace) (req : SubscribeRequest) : Prop :=
  ∃ result, ws.addClient env req = some result ∧
    getBit ws.validClientsBitSet result.slot = false ∧
    (∀ j : Fin maxClients, j ≠ result.slot →
      result.workspace.clientBank j = ws.clientBank j ∧
      getBit result.workspace.validClientsBitSet j = getBit ws.validClientsBitSet j) ∧
    ((∀ j : Fin maxClients, getBit ws.validClientsBitSet j = true) →
      result.added = false ∧ result.workspace = ws)

theorem keepsBank_of_clear {i : Fin maxClients} (hi : getBit ws.validClientsBitSet i = false) :
    KeepsBank env ws req := by
  obtain ⟨first, hfirst⟩ : ∃ first, firstClearBit ws.validClientsBitSet = some first := by
    apply exists_find?_finRange (i := i)
    rw [hi]
    rfl
  have hclear := (firstClearBit_eq_some.mp hfirst).1
  obtain ⟨result, hadd, rfl⟩ : ∃ result, ws.addClient env req = some result ∧
      result.slot = first := exists_addClient hfirst
  obtain ⟨ctx, -, -, -, -, hbank, hbits⟩ := addClient_spec hadd
  refine ⟨result, hadd, hclear, ?_, ?_⟩
  · intro j hj
    rw [hbank, hbits, Function.update_of_ne hj]
    refine ⟨rfl, ?_⟩
    split
    · rw [getBit_setBit _ result.slot.isLt j.isLt, if_neg (Fin.val_ne_of_ne hj)]
    · rfl
  · intro hfull
    rw [hfull] at hclear
    cases hclear

theorem not_keepsBank_of_full
    (hfull : ∀ i : Fin maxClients, getBit ws.validClientsBitSet i = true) :
    ¬ KeepsBank env ws req := by
  rintro ⟨result, -, hclear, -⟩
  rw [hfull] at hclear
  cases hclear

theorem messageMachine_reachable (h : roomyMachine.Reachable ws) : messageMachine.Reachable ws := by
  apply Lib.Machine.Reachable.invariant (I := messageMachine.Reachable) ?_ ?_ h
  · intro s hinit
    exact Lib.Machine.Reachable.of_init hinit
  · intro s a t hs hstep
    simp only [roomyMachine] at hstep
    split at hstep
    case isTrue hroom => exact hs.step hstep
    case isFalse => cases hstep

end MatrixTransposer.ServerWorkspace
