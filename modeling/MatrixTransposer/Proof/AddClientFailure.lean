import MatrixTransposer.Proof.AddClientSlot

/-!
# What a failing `AddClient` leaves in its slot

The context is built in the slot itself, and the handler of the exceptions does not clear it. So
what a failed attempt has built stays there, unless it failed before it had built anything.
-/

namespace MatrixTransposer

variable {req : SubscribeRequest} {fails : BuildStep → Bool} {steps : List BuildStep}
  {ctx ctx' : ClientContext} {s : BuildStep}

structure ClientContext.HoldsNothing (ctx : ClientContext) : Prop where
  matrixBuffers : ctx.matrixBuffers = []
  matrixBuffersTr : ctx.matrixBuffersTr = []
  pRequestQueue : ctx.pRequestQueue = none
  pTransposeReadyFutex : ctx.pTransposeReadyFutex = none

/-- Whether a statement throws: the environment makes it, or a buffer would have no bytes. -/
def BuildStep.throws (req : SubscribeRequest) (fails : BuildStep → Bool) (s : BuildStep) : Bool :=
  match s with
  | .reserveMatrixBuffers | .reserveMatrixBuffersTr | .makeFutex | .makeQueue => fails s
  | .pushMatrixBuffer _ | .pushMatrixBufferTr _ =>
      fails s || SharedMatrixBuffer.bufferSizeInBytes (SharedMatrixBuffer.dimension req.m)
        (SharedMatrixBuffer.dimension req.n) == 0
  | _ => false

/-- The statements before the first construction, which is that of the futex. -/
def stepsBeforeFutex : List BuildStep :=
  [.setId, .setM, .setN, .setK, .setNumRows, .setNumColumns, .setIpcContext, .reserveMatrixBuffers,
    .reserveMatrixBuffersTr]

def stepsToFutex : List BuildStep := stepsBeforeFutex ++ [.makeFutex]

def BuildStep.constructs : BuildStep → Bool
  | .makeFutex | .makeQueue | .pushMatrixBuffer _ | .pushMatrixBufferTr _ => true
  | _ => false

/-- The block throws before it has built the futex, or it does not throw. -/
def leavesNothing (req : SubscribeRequest) (fails : BuildStep → Bool) : Bool :=
  stepsToFutex.any (BuildStep.throws req fails) ||
    (buildSteps req.k).all fun s => !s.throws req fails

/-! ## The statements of the block -/

theorem construct_eq_none_iff {b : Bool} {ownerPid m n k : UInt32} {suffix : String} :
    SharedMatrixBuffer.construct b ownerPid m n k suffix = none ↔
      (b || SharedMatrixBuffer.bufferSizeInBytes (SharedMatrixBuffer.dimension m)
        (SharedMatrixBuffer.dimension n) == 0) = true := by
  rw [SharedMatrixBuffer.construct, Option.map_eq_none_iff, SharedMemory.construct,
    Bool.or_eq_true, beq_iff_eq]
  split
  case isTrue h =>
    have hne := UInt64.pos_iff_ne_zero.mp h.2
    simp [h.1, hne]
  case isFalse h =>
    simp only [true_iff]
    by_contra hnot
    rw [not_or, Bool.not_eq_true, ← Ne, ← UInt64.pos_iff_ne_zero] at hnot
    exact h hnot

theorem BuildStep.run_eq_none_iff :
    s.run req (fails s) ctx = none ↔ s.throws req fails = true := by
  cases s with
  | pushMatrixBuffer bufferIndex =>
      rw [BuildStep.run, Option.map_eq_none_iff]
      exact construct_eq_none_iff
  | pushMatrixBufferTr bufferIndex =>
      rw [BuildStep.run, Option.map_eq_none_iff]
      exact construct_eq_none_iff
  | _ => simp [BuildStep.run, BuildStep.throws]

theorem BuildStep.futex_run {b : Bool} (h : s.run req b ctx = some ctx')
    (hfutex : ctx.pTransposeReadyFutex.isSome = true) :
    ctx'.pTransposeReadyFutex.isSome = true := by
  have h := BuildStep.run_of_fails h
  cases s with
  | pushMatrixBuffer bufferIndex =>
      obtain ⟨buffer, -, rfl⟩ := Option.map_eq_some_iff.mp h
      exact hfutex
  | pushMatrixBufferTr bufferIndex =>
      obtain ⟨buffer, -, rfl⟩ := Option.map_eq_some_iff.mp h
      exact hfutex
  | makeFutex =>
      cases h
      rfl
  | _ =>
      cases h
      exact hfutex

/-- Nothing is taken out of the context again. -/
theorem futex_runBuild (hfutex : ctx.pTransposeReadyFutex.isSome = true) :
    (runBuild req fails steps ctx).1.pTransposeReadyFutex.isSome = true := by
  induction steps generalizing ctx with
  | nil => exact hfutex
  | cons s steps ih =>
      rw [runBuild]
      split
      case h_1 => exact hfutex
      case h_2 next hrun => exact ih (s.futex_run hrun hfutex)

theorem runBuild_all_iff :
    (runBuild req fails steps ctx).2 = true ↔ steps.all (fun s => !s.throws req fails) = true := by
  induction steps generalizing ctx with
  | nil => simp [runBuild]
  | cons s steps ih =>
      rw [runBuild, List.all_cons, Bool.and_eq_true, Bool.not_eq_true']
      split
      case h_1 hrun =>
        rw [BuildStep.run_eq_none_iff] at hrun
        simp [hrun]
      case h_2 next hrun =>
        have hruns : s.throws req fails = false := by
          by_contra hthrows
          rw [Bool.not_eq_false, ← @BuildStep.run_eq_none_iff _ _ ctx, hrun] at hthrows
          cases hthrows
        rw [ih]
        simp [hruns]

theorem runBuild_append {before after : List BuildStep} :
    runBuild req fails (before ++ after) ctx =
      if (runBuild req fails before ctx).2 then
        runBuild req fails after (runBuild req fails before ctx).1
      else runBuild req fails before ctx := by
  induction before generalizing ctx with
  | nil => rfl
  | cons s before ih =>
      rw [List.cons_append, runBuild, runBuild]
      split
      case h_1 => rfl
      case h_2 next hrun => exact ih

/-! ## Up to the futex -/

theorem ClientContext.HoldsNothing.run {b : Bool} (h : ctx.HoldsNothing)
    (hs : s.constructs = false) (hrun : s.run req b ctx = some ctx') : ctx'.HoldsNothing := by
  have hrun := BuildStep.run_of_fails hrun
  cases s with
  | makeFutex | makeQueue => cases hs
  | pushMatrixBuffer bufferIndex => cases hs
  | pushMatrixBufferTr bufferIndex => cases hs
  | _ =>
      cases hrun
      exact ⟨h.matrixBuffers, h.matrixBuffersTr, h.pRequestQueue, h.pTransposeReadyFutex⟩

/-- The statement that throws adds nothing to what those before it have built. -/
theorem ClientContext.HoldsNothing.runBuild_concat {last : BuildStep} (h : ctx.HoldsNothing)
    (hsteps : ∀ s ∈ steps, s.constructs = false)
    (hthrows : (runBuild req fails (steps ++ [last]) ctx).2 = false) :
    (runBuild req fails (steps ++ [last]) ctx).1.HoldsNothing := by
  induction steps generalizing ctx with
  | nil =>
      rw [List.nil_append, runBuild] at hthrows ⊢
      split
      case h_1 => exact h
      case h_2 next hrun => simp [hrun, runBuild] at hthrows
  | cons s steps ih =>
      rw [List.cons_append, runBuild] at hthrows ⊢
      split
      case h_1 => exact h
      case h_2 next hrun =>
        simp only [hrun] at hthrows
        apply ih (h.run (hsteps s List.mem_cons_self) hrun) _ hthrows
        exact fun s hs => hsteps s (List.mem_cons_of_mem _ hs)

theorem futex_runBuild_concat (hbuilt : (runBuild req fails (steps ++ [.makeFutex]) ctx).2 = true) :
    (runBuild req fails (steps ++ [.makeFutex]) ctx).1.pTransposeReadyFutex.isSome = true := by
  rw [runBuild_append] at hbuilt ⊢
  split at hbuilt
  case isFalse hthrows => exact absurd hbuilt hthrows
  case isTrue hsteps =>
    rw [if_pos hsteps]
    rw [runBuild] at hbuilt ⊢
    split
    case h_1 hrun => simp [hrun] at hbuilt
    case h_2 next hrun =>
      cases BuildStep.run_of_fails hrun
      rfl

theorem holdsNothing_runBuild_iff :
    (runBuild req fails (buildSteps req.k) .new).1.HoldsNothing ↔
      stepsToFutex.any (BuildStep.throws req fails) = true := by
  obtain ⟨rest, hrest⟩ : ∃ rest, buildSteps req.k = stepsToFutex ++ rest := ⟨_, rfl⟩
  have hall : (runBuild req fails stepsToFutex .new).2 = true ↔
      stepsToFutex.any (BuildStep.throws req fails) = false := by
    rw [runBuild_all_iff, ← List.not_any_eq_all_not, Bool.not_eq_true']
  rw [hrest, runBuild_append]
  cases hbuilt : (runBuild req fails stepsToFutex ClientContext.new).2 with
  | false =>
      have hnothing : (runBuild req fails stepsToFutex .new).1.HoldsNothing :=
        ClientContext.HoldsNothing.runBuild_concat ⟨rfl, rfl, rfl, rfl⟩ (by decide) hbuilt
      have hany : stepsToFutex.any (BuildStep.throws req fails) = true := by
        rw [← Bool.not_eq_false, ← hall, hbuilt]
        decide
      simp [hnothing, hany]
  | true =>
      have hfutex : (runBuild req fails rest
          (runBuild req fails stepsToFutex .new).1).1.pTransposeReadyFutex.isSome = true :=
        futex_runBuild (futex_runBuild_concat hbuilt)
      rw [if_pos rfl, hall.mp hbuilt]
      constructor
      · intro hnothing
        rw [hnothing.pTransposeReadyFutex] at hfutex
        cases hfutex
      · intro h
        cases h

theorem leavesNothing_iff :
    leavesNothing req fails = true ↔
      ((runBuild req fails (buildSteps req.k) .new).2 = false →
        (runBuild req fails (buildSteps req.k) .new).1.HoldsNothing) := by
  rw [leavesNothing, Bool.or_eq_true, ← @runBuild_all_iff req fails _ ClientContext.new]
  cases hbuilt : (runBuild req fails (buildSteps req.k) ClientContext.new).2 with
  | false => simp [holdsNothing_runBuild_iff]
  | true => simp

namespace ServerWorkspace

variable {env : Environment} {ws : ServerWorkspace} {result : AddResult}

/-! ## The bank -/

structure RolledBack (ws : ServerWorkspace) (result : AddResult) : Prop where
  validClientsBitSet : result.workspace.validClientsBitSet = ws.validClientsBitSet
  clientBankUpdateAvailable :
    result.workspace.clientBankUpdateAvailable = ws.clientBankUpdateAvailable
  subscribed : ∀ j, (ws.clientBank j).subscribed = true →
    result.workspace.clientBank j = ws.clientBank j
  slot : (result.workspace.clientBank result.slot).HoldsNothing

def FailureRollsBack (env : Environment) (ws : ServerWorkspace) (req : SubscribeRequest) : Prop :=
  ∃ result, ws.addClient env req = some result ∧ (result.added = false → RolledBack ws result)

/-- Also when the bank has been full, a slot whose bit is clear is not subscribed. -/
def ClearUnsubscribed (ws : ServerWorkspace) : Prop :=
  ∀ i : Fin maxClients, getBit ws.validClientsBitSet i = false →
    (ws.clientBank i).subscribed = false

theorem ClearUnsubscribed.addClient (h : ClearUnsubscribed ws)
    (hadd : ws.addClient env req = some result) : ClearUnsubscribed result.workspace := by
  obtain ⟨ctx, -, -, hsub, -, hbank, hbits⟩ := addClient_spec hadd
  intro i hclear
  rw [hbits] at hclear
  rw [hbank]
  by_cases heq : i = result.slot
  · subst heq
    rw [Function.update_self, hsub]
    by_contra hadded
    rw [Bool.not_eq_false] at hadded
    rw [if_pos hadded, getBit_setBit _ result.slot.isLt result.slot.isLt, if_pos rfl] at hclear
    cases hclear
  · rw [Function.update_of_ne heq]
    apply h
    split at hclear
    · rwa [getBit_setBit _ result.slot.isLt i.isLt, if_neg (Fin.val_ne_of_ne heq)] at hclear
    · exact hclear

theorem ClearUnsubscribed.removeClient (h : ClearUnsubscribed ws) (clientId : UInt32) :
    ClearUnsubscribed (ws.removeClient clientId) := by
  intro i hclear
  rw [removeClient_clientBank]
  by_cases heq : i = ws.indexToRemove clientId
  · subst heq
    rw [Function.update_self]
  · rw [Function.update_of_ne heq]
    rw [removeClient_validClientsBitSet, getBit_setBit _ (ws.indexToRemove clientId).isLt i.isLt,
      if_neg (Fin.val_ne_of_ne heq)] at hclear
    exact h i hclear

theorem ClearUnsubscribed.initial (serverPid : UInt32) :
    ClearUnsubscribed (ServerWorkspace.initial serverPid) :=
  fun _ _ => rfl

theorem ClearUnsubscribed.messageHandler (h : ClearUnsubscribed ws) {a : Arrival}
    {handled : Handled}
    (hhandled : messageHandler a.env ws a.context a.message = some handled) :
    ClearUnsubscribed handled.workspace := by
  rcases messageHandler_cases hhandled with hws | ⟨-, -, req, result, -, hadd, hws⟩ | hws
  · rwa [hws]
  · rw [hws]
    exact h.addClient hadd
  · rw [hws]
    exact h.removeClient _

theorem clearUnsubscribed_of_reachable (h : messageMachine.Reachable ws) :
    ClearUnsubscribed ws := by
  apply Lib.Machine.Reachable.invariant (I := ClearUnsubscribed) ?_ ?_ h
  · rintro s ⟨serverPid, rfl⟩
    exact ClearUnsubscribed.initial serverPid
  · intro s a t hs hstep
    obtain ⟨handled, hhandled, rfl⟩ := Option.map_eq_some_iff.mp hstep
    exact hs.messageHandler hhandled

theorem addClient_eq_of_clear (env : Environment) (req : SubscribeRequest) {i : Fin maxClients}
    (hclear : firstClearBit ws.validClientsBitSet = some i) :
    ∃ result, ws.addClient env req = some result ∧ result.slot = i ∧
      result.added = (runBuild req env.fails (buildSteps req.k) .new).2 ∧
      (result.added = false → result.workspace =
        ws.setClient i (runBuild req env.fails (buildSteps req.k) .new).1) := by
  rw [addClient, bankElement_indexToAdd hclear]
  refine ⟨_, rfl, ?_⟩
  cases hbuild : runBuild req env.fails (buildSteps req.k) ClientContext.new with
  | mk ctx built =>
      cases built with
      | false => exact ⟨rfl, rfl, fun _ => rfl⟩
      | true => exact ⟨rfl, rfl, fun h => by cases h⟩

theorem failureRollsBack_of_leavesNothing {i : Fin maxClients}
    (hclear : firstClearBit ws.validClientsBitSet = some i)
    (hfree : (ws.clientBank i).subscribed = false) (h : leavesNothing req env.fails = true) :
    FailureRollsBack env ws req := by
  obtain ⟨result, hadd, rfl, hadded, hfailed⟩ := addClient_eq_of_clear env req hclear
  rw [leavesNothing_iff, ← hadded] at h
  refine ⟨result, hadd, ?_⟩
  intro hfalse
  have hbank := hfailed hfalse
  refine ⟨?_, ?_, ?_, ?_⟩
  · rw [hbank]
    rfl
  · rw [hbank]
    rfl
  · intro j hj
    have hne : j ≠ result.slot := by
      rintro rfl
      rw [hfree] at hj
      cases hj
    rw [hbank, setClient_of_ne ws hne]
  · rw [hbank, setClient_self]
    exact h hfalse

theorem not_failureRollsBack {i : Fin maxClients}
    (hclear : firstClearBit ws.validClientsBitSet = some i)
    (h : leavesNothing req env.fails = false) : ¬ FailureRollsBack env ws req := by
  rintro ⟨result, hadd, hback⟩
  obtain ⟨result', hadd', rfl, hadded, hfailed⟩ := addClient_eq_of_clear env req hclear
  obtain rfl := Option.some.inj (hadd.symm.trans hadd')
  have hnothing : leavesNothing req env.fails = true := by
    rw [leavesNothing_iff, ← hadded]
    intro hfalse
    have hslot := (hback hfalse).slot
    rwa [hfailed hfalse, setClient_self] at hslot
  rw [h] at hnothing
  cases hnothing

/-- **When a failing `AddClient` rolls back.** In every reachable state with a free slot, an
`AddClient` that fails leaves the bit set, the flag and the subscribed slots as they were, and
nothing of the attempt in its slot, if and only if it does not fail or fails before it has built
the futex. -/
theorem failure_rolls_back_iff (hreach : messageMachine.Reachable ws)
    (hfree : ∃ i : Fin maxClients, getBit ws.validClientsBitSet i = false) (env : Environment)
    (req : SubscribeRequest) :
    FailureRollsBack env ws req ↔ leavesNothing req env.fails = true := by
  obtain ⟨i, hi⟩ := hfree
  obtain ⟨first, hfirst⟩ : ∃ first, firstClearBit ws.validClientsBitSet = some first := by
    apply exists_find?_finRange (i := i)
    rw [hi]
    rfl
  have hunsubscribed := clearUnsubscribed_of_reachable hreach first
    (firstClearBit_eq_some.mp hfirst).1
  constructor
  · intro hback
    by_contra hnot
    exact not_failureRollsBack hfirst (Bool.eq_false_iff.mpr hnot) hback
  · exact failureRollsBack_of_leavesNothing hfirst hunsubscribed

theorem failure_rolls_back_at_reserve :
    FailureRollsBack { uninitialized := 0, fails := fun s => s = .reserveMatrixBuffers } (initial 1)
      { clientId := 7, m := 6, n := 6, k := 1, context := { socket := 5 } } :=
  (failure_rolls_back_iff (Lib.Machine.Reachable.of_init ⟨1, rfl⟩) ⟨⟨0, by decide⟩, by decide⟩ _
    _).mpr (by decide)

/-- The matrices of `2^16` by `2^16` have buffers of no bytes, which cannot be mapped. The futex and
the queue have been built before that. -/
theorem failing_add_keeps_futex :
    ¬ FailureRollsBack { uninitialized := 0, fails := fun _ => false } (initial 1)
      { clientId := 7, m := 16, n := 16, k := 1, context := { socket := 5 } } :=
  @not_failureRollsBack _ _ _ ⟨0, by decide⟩ (by decide) (by decide)

end ServerWorkspace

end MatrixTransposer
