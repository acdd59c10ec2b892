import MatrixTransposer.ServerWorkspace
import Mathlib.Data.Nat.Bitwise
import Mathlib.Data.List.Count

/-!
# The client bank between messages

The invariant of the bank over all sequences of messages: a slot's bit says whether it is
subscribed, and no slot below a subscribed one carries its id. The second half is what makes
`RemoveClient`, which does not look at `subscribed`, find the right slot: a client gets the lowest
free slot, so that when it is added the slots below belong to others, and each of these can only be
rebuilt for a client that is not yet subscribed.
-/

namespace MatrixTransposer

/-! ## The searches -/

section Search

variable {n : Nat} {p : Fin n → Bool}

theorem find?_finRange_eq_some {i : Fin n} :
    (List.finRange n).find? p = some i ↔ p i = true ∧ ∀ j < i, p j = false := by
  rw [List.find?_eq_some_iff_getElem]
  simp only [List.getElem_finRange, Bool.not_eq_eq_eq_not, Bool.not_true]
  constructor
  · rintro ⟨hp, k, hk, rfl, hbefore⟩
    exact ⟨hp, fun j hj => hbefore j.val hj⟩
  · rintro ⟨hp, hbefore⟩
    refine ⟨hp, i.val, by rw [List.length_finRange]; exact i.isLt, rfl, ?_⟩
    intro j hj
    exact hbefore ⟨j, hj.trans i.isLt⟩ hj

theorem find?_finRange_eq_none : (List.finRange n).find? p = none ↔ ∀ i, p i = false := by
  simp [List.find?_eq_none]

theorem exists_find?_finRange {i : Fin n} (hp : p i = true) :
    ∃ j, (List.finRange n).find? p = some j := by
  cases hfind : (List.finRange n).find? p with
  | some j => exact ⟨j, rfl⟩
  | none =>
      rw [find?_finRange_eq_none.mp hfind i] at hp
      cases hp

end Search

namespace ServerWorkspace

variable {ws : ServerWorkspace} {clientId : UInt32} {i : Fin maxClients}

theorem clientExists_eq_some :
    ws.clientExists clientId = some i ↔
      ((ws.clientBank i).subscribed = true ∧ (ws.clientBank i).id = clientId) ∧
      ∀ j < i, (ws.clientBank j).subscribed = true → (ws.clientBank j).id ≠ clientId := by
  simp [clientExists, find?_finRange_eq_some]

theorem clientExists_eq_none :
    ws.clientExists clientId = none ↔
      ∀ j, (ws.clientBank j).subscribed = true → (ws.clientBank j).id ≠ clientId := by
  simp [clientExists]

theorem firstWithId_eq_some :
    ws.firstWithId clientId = some i ↔
      (ws.clientBank i).id = clientId ∧ ∀ j < i, (ws.clientBank j).id ≠ clientId := by
  simp [firstWithId, find?_finRange_eq_some]

theorem firstClearBit_eq_some {bits : UInt64} :
    firstClearBit bits = some i ↔ getBit bits i = false ∧ ∀ j < i, getBit bits j = true := by
  simp [firstClearBit, find?_finRange_eq_some]

theorem bankElement_ofNat (i : Fin maxClients) : bankElement (Int32.ofNat i) = some i := by
  revert i
  decide

end ServerWorkspace

/-! ## The bit set -/

theorem toNat_mask {i : Nat} (hi : i < 64) : ((1 : UInt64) <<< UInt64.ofNat i).toNat = 2 ^ i := by
  rw [UInt64.toNat_shiftLeft, UInt64.toNat_one, Nat.one_shiftLeft,
    UInt64.toNat_ofNat_of_lt' (by rw [UInt64.size]; omega), Nat.mod_eq_of_lt hi]
  exact Nat.mod_eq_of_lt (Nat.pow_lt_pow_right (by decide) hi)

theorem getBit_eq_testBit (number : UInt64) {i : Nat} (hi : i < 64) :
    getBit number i = number.toNat.testBit i := by
  have hand : (number &&& 1 <<< UInt64.ofNat i).toNat = (number.toNat.testBit i).toNat * 2 ^ i := by
    rw [UInt64.toNat_and, toNat_mask hi, Nat.and_two_pow]
  have hzero : number &&& 1 <<< UInt64.ofNat i = 0 ↔ number.toNat.testBit i = false := by
    rw [← UInt64.toNat_inj, hand, UInt64.toNat_zero]
    cases number.toNat.testBit i <;> simp
  rw [getBit, bne, Bool.eq_iff_iff, Bool.not_eq_true', beq_eq_false_iff_ne, Ne, hzero,
    Bool.not_eq_false]

theorem getBit_setBit (number : UInt64) {i j : Nat} (hi : i < 64) (hj : j < 64) (value : Bool) :
    getBit (setBit number i value) j = if j = i then value else getBit number j := by
  rw [getBit_eq_testBit _ hj, getBit_eq_testBit _ hj]
  cases value with
  | true =>
      simp only [setBit, if_true, UInt64.toNat_or, toNat_mask hi, Nat.testBit_or,
        Nat.testBit_two_pow]
      rcases eq_or_ne j i with rfl | hne
      · simp
      · simp [hne, hne.symm]
  | false =>
      have hpow : 2 ^ i < 2 ^ 64 := Nat.pow_lt_pow_right (by decide) hi
      have hnot : (~~~((1 : UInt64) <<< UInt64.ofNat i)).toNat = 2 ^ 64 - (2 ^ i + 1) := by
        rw [UInt64.toNat_not, toNat_mask hi, UInt64.size]
        omega
      simp only [setBit, Bool.false_eq_true, if_false, UInt64.toNat_and, hnot, Nat.testBit_and,
        Nat.testBit_two_pow_sub_succ hpow, hj, Nat.testBit_two_pow]
      rcases eq_or_ne j i with rfl | hne
      · simp
      · simp [hne, hne.symm]
@[simp] theorem getBit_zero {i : Nat} (hi : i < 64) : getBit 0 i = false := by
  rw [getBit_eq_testBit _ hi, UInt64.toNat_zero, Nat.zero_testBit]

/-! ## The `try` block -/

section Build

variable {req : SubscribeRequest} {fails : BuildStep → Bool} {ctx ctx' : ClientContext}

theorem BuildStep.id_run {s : BuildStep} {b : Bool} (h : s.run req b ctx = some ctx')
    (hid : ctx.id = req.clientId) : ctx'.id = req.clientId := by
  have h := BuildStep.run_of_fails h
  cases s with
  | pushMatrixBuffer bufferIndex =>
      obtain ⟨buffer, -, rfl⟩ := Option.map_eq_some_iff.mp h
      exact hid
  | pushMatrixBufferTr bufferIndex =>
      obtain ⟨buffer, -, rfl⟩ := Option.map_eq_some_iff.mp h
      exact hid
  | setId =>
      cases h
      rfl
  | _ =>
      cases h
      exact hid

theorem BuildStep.subscribed_run {s : BuildStep} {b : Bool} (h : s.run req b ctx = some ctx')
    (hs : s ≠ .setSubscribed) : ctx'.subscribed = ctx.subscribed := by
  have h := BuildStep.run_of_fails h
  cases s with
  | pushMatrixBuffer bufferIndex =>
      obtain ⟨buffer, -, rfl⟩ := Option.map_eq_some_iff.mp h
      rfl
  | pushMatrixBufferTr bufferIndex =>
      obtain ⟨buffer, -, rfl⟩ := Option.map_eq_some_iff.mp h
      rfl
  | setSubscribed => exact absurd rfl hs
  | _ =>
      cases h
      rfl

theorem id_runBuild {steps : List BuildStep} (hid : ctx.id = req.clientId) :
    (runBuild req fails steps ctx).1.id = req.clientId := by
  induction steps generalizing ctx with
  | nil => exact hid
  | cons s steps ih =>
      rw [runBuild]
      split
      case h_1 => exact hid
      case h_2 next hrun => exact ih (s.id_run hrun hid)

theorem subscribed_runBuild_concat {steps : List BuildStep} (hsteps : .setSubscribed ∉ steps)
    (hctx : ctx.subscribed = false) :
    (runBuild req fails (steps ++ [.setSubscribed]) ctx).1.subscribed =
      (runBuild req fails (steps ++ [.setSubscribed]) ctx).2 := by
  induction steps generalizing ctx with
  | nil => rfl
  | cons s steps ih =>
      rw [List.mem_cons, not_or] at hsteps
      rw [List.cons_append, runBuild]
      split
      case h_1 => exact hctx
      case h_2 next hrun =>
        apply ih hsteps.2
        rw [s.subscribed_run hrun (Ne.symm hsteps.1), hctx]

/-- A context is subscribed by the last statement of its block or not at all. -/
theorem subscribed_runBuild (req : SubscribeRequest) (fails : BuildStep → Bool) :
    (runBuild req fails (buildSteps req.k) ClientContext.new).1.subscribed =
      (runBuild req fails (buildSteps req.k) ClientContext.new).2 := by
  apply subscribed_runBuild_concat
  · simp
  · rfl

theorem id_runBuild_new (req : SubscribeRequest) (fails : BuildStep → Bool) :
    (runBuild req fails (buildSteps req.k) ClientContext.new).1.id = req.clientId := by
  rw [buildSteps, List.append_assoc, List.cons_append, runBuild]
  exact id_runBuild rfl

end Build

namespace ServerWorkspace

/-! ## What one call does -/

section Calls

variable {env : Environment} {ws : ServerWorkspace} {req : SubscribeRequest} {result : AddResult}
  {i : Fin maxClients}

theorem bankElement_indexToAdd {bits : UInt64} {uninitialized : Int32}
    (h : firstClearBit bits = some i) : bankElement (indexToAdd uninitialized bits) = some i := by
  rw [indexToAdd, h]
  exact bankElement_ofNat i

theorem addClient_spec (h : ws.addClient env req = some result) :
    ∃ ctx, bankElement (indexToAdd env.uninitialized ws.validClientsBitSet) = some result.slot ∧
      ctx.id = req.clientId ∧ ctx.subscribed = result.added ∧
      result.added = (runBuild req env.fails (buildSteps req.k) ClientContext.new).2 ∧
      result.workspace.clientBank = Function.update ws.clientBank result.slot ctx ∧
      result.workspace.validClientsBitSet =
        if result.added then setBit ws.validClientsBitSet result.slot true
        else ws.validClientsBitSet := by
  obtain ⟨i, hi, rfl⟩ := Option.map_eq_some_iff.mp h
  have hid := id_runBuild_new req env.fails
  have hsub := subscribed_runBuild req env.fails
  cases hbuild : runBuild req env.fails (buildSteps req.k) ClientContext.new with
  | mk ctx built =>
      rw [hbuild] at hid hsub
      cases built with
      | false => exact ⟨ctx, hi, hid, hsub, rfl, rfl, rfl⟩
      | true => exact ⟨ctx, hi, hid, hsub, rfl, rfl, rfl⟩

theorem exists_addClient (h : firstClearBit ws.validClientsBitSet = some i) :
    ∃ result, ws.addClient env req = some result ∧ result.slot = i := by
  rw [addClient, bankElement_indexToAdd h]
  refine ⟨_, rfl, ?_⟩
  dsimp only
  split <;> rfl

theorem removeClient_clientBank (ws : ServerWorkspace) (clientId : UInt32) :
    (ws.removeClient clientId).clientBank =
      Function.update ws.clientBank (ws.indexToRemove clientId)
        { ws.clientBank (ws.indexToRemove clientId) with subscribed := false } :=
  rfl

theorem removeClient_validClientsBitSet (ws : ServerWorkspace) (clientId : UInt32) :
    (ws.removeClient clientId).validClientsBitSet =
      setBit ws.validClientsBitSet (ws.indexToRemove clientId) false :=
  rfl

end Calls

/-! ## The invariant -/

structure BankInv (ws : ServerWorkspace) : Prop where
  valid_iff : ∀ i : Fin maxClients,
    getBit ws.validClientsBitSet i = (ws.clientBank i).subscribed
  id_ne_of_lt : ∀ i j : Fin maxClients, i < j → (ws.clientBank j).subscribed = true →
    (ws.clientBank i).id ≠ (ws.clientBank j).id

namespace BankInv

variable {ws : ServerWorkspace}

theorem initial (serverPid : UInt32) : BankInv (ServerWorkspace.initial serverPid) where
  valid_iff i := getBit_zero i.isLt
  id_ne_of_lt i j _ hsub := by cases hsub

theorem id_injective (h : BankInv ws) {i j : Fin maxClients}
    (hi : (ws.clientBank i).subscribed = true) (hj : (ws.clientBank j).subscribed = true)
    (heq : (ws.clientBank i).id = (ws.clientBank j).id) : i = j := by
  rcases lt_trichotomy i j with hlt | rfl | hgt
  · exact absurd heq (h.id_ne_of_lt i j hlt hj)
  · rfl
  · exact absurd heq.symm (h.id_ne_of_lt j i hgt hi)

/-- `RemoveClient` searches for the slot `ClientExists` has found. -/
theorem firstWithId_of_clientExists (h : BankInv ws) {clientId : UInt32} {i : Fin maxClients}
    (hexists : ws.clientExists clientId = some i) : ws.firstWithId clientId = some i := by
  obtain ⟨⟨hsub, hid⟩, -⟩ := clientExists_eq_some.mp hexists
  rw [firstWithId_eq_some]
  refine ⟨hid, ?_⟩
  intro j hj heq
  exact h.id_ne_of_lt j i hj hsub (heq.trans hid.symm)

theorem clientExists_of_subscribed (h : BankInv ws) {i : Fin maxClients}
    (hsub : (ws.clientBank i).subscribed = true) :
    ws.clientExists (ws.clientBank i).id = some i := by
  rw [clientExists_eq_some]
  refine ⟨⟨hsub, rfl⟩, ?_⟩
  intro j hj hjsub heq
  exact absurd (h.id_injective hjsub hsub heq) (ne_of_lt hj)

theorem addClient (h : BankInv ws) {env : Environment} {req : SubscribeRequest}
    {result : AddResult} (hnew : ws.clientExists req.clientId = none) {i : Fin maxClients}
    (hclear : firstClearBit ws.validClientsBitSet = some i)
    (hadd : ws.addClient env req = some result) : BankInv result.workspace := by
  obtain ⟨ctx, hslot, hid, hsub, -, hbank, hbits⟩ := addClient_spec hadd
  rw [bankElement_indexToAdd hclear] at hslot
  obtain rfl := Option.some.inj hslot
  obtain ⟨hfree, hlower⟩ := firstClearBit_eq_some.mp hclear
  have hnone := clientExists_eq_none.mp hnew
  constructor
  · intro j
    rw [hbits, hbank]
    by_cases heq : j = result.slot
    · subst heq
      rw [Function.update_self, hsub]
      cases hadded : result.added with
      | true => rw [if_pos rfl, getBit_setBit _ result.slot.isLt result.slot.isLt, if_pos rfl]
      | false => simpa [hadded] using hfree
    · rw [Function.update_of_ne heq, ← h.valid_iff]
      split
      · rw [getBit_setBit _ result.slot.isLt j.isLt, if_neg (Fin.val_ne_of_ne heq)]
      · rfl
  · intro j j' hlt hj'
    rw [hbank] at hj' ⊢
    by_cases hnewer : j' = result.slot
    · -- the slots below the lowest free one belong to other clients
      subst hnewer
      rw [Function.update_self, Function.update_of_ne (ne_of_lt hlt), hid]
      apply hnone
      rw [← h.valid_iff]
      exact hlower j hlt
    · rw [Function.update_of_ne hnewer] at hj' ⊢
      by_cases holder : j = result.slot
      · subst holder
        rw [Function.update_self, hid]
        exact (hnone j' hj').symm
      · rw [Function.update_of_ne holder]
        exact h.id_ne_of_lt j j' hlt hj'

theorem removeClient (h : BankInv ws) (clientId : UInt32) : BankInv (ws.removeClient clientId) := by
  constructor
  · intro j
    rw [removeClient_clientBank, removeClient_validClientsBitSet,
      getBit_setBit _ (ws.indexToRemove clientId).isLt j.isLt]
    by_cases heq : j = ws.indexToRemove clientId
    · rw [if_pos (congrArg Fin.val heq), heq, Function.update_self]
    · rw [if_neg (Fin.val_ne_of_ne heq), Function.update_of_ne heq, h.valid_iff]
  · intro j j' hlt hj'
    rw [removeClient_clientBank] at hj' ⊢
    -- unsubscribing a slot leaves its id
    have hids : ∀ j, (Function.update ws.clientBank (ws.indexToRemove clientId)
        { ws.clientBank (ws.indexToRemove clientId) with subscribed := false } j).id =
          (ws.clientBank j).id := by
      intro j
      by_cases heq : j = ws.indexToRemove clientId
      · rw [heq, Function.update_self]
      · rw [Function.update_of_ne heq]
    rw [hids, hids]
    apply h.id_ne_of_lt j j' hlt
    by_cases heq : j' = ws.indexToRemove clientId
    · rw [heq, Function.update_self] at hj'
      cases hj'
    · rwa [Function.update_of_ne heq] at hj'

end BankInv

/-! ## Sequences of messages -/

variable {ws : ServerWorkspace}

theorem subscribedCount_lt_iff :
    ws.subscribedCount < maxClients ↔ ∃ i, (ws.clientBank i).subscribed = false := by
  have hcount := List.countP_lt_length_iff (l := List.finRange maxClients)
    (p := fun i => (ws.clientBank i).subscribed)
  rw [List.length_finRange] at hcount
  rw [subscribedCount, hcount]
  simp only [List.mem_finRange, true_and]

theorem BankInv.exists_firstClearBit (h : BankInv ws) (hroom : ws.subscribedCount < maxClients) :
    ∃ i, firstClearBit ws.validClientsBitSet = some i := by
  obtain ⟨j, hj⟩ := subscribedCount_lt_iff.mp hroom
  apply exists_find?_finRange (i := j)
  rw [h.valid_iff, hj]
  rfl

theorem messageHandler_subscribe {env : Environment} {context : UnixSockIpcContext}
    {message : ClientServerMessage} (htype : message.type = .subscribe) :
    messageHandler env ws context message =
      handleSubscribe env ws
        { clientId := message.senderId, m := message.param1, n := message.param2,
          k := message.param3, context := context } := by
  simp [messageHandler, ClientServerMessage.processSubscribeMessage, htype]

theorem messageHandler_unsubscribe {env : Environment} {context : UnixSockIpcContext}
    {message : ClientServerMessage} (htype : message.type = .unsubscribe) :
    messageHandler env ws context message = some (handleUnsubscribe ws message.senderId) := by
  simp [messageHandler, ClientServerMessage.processUnsubscribeMessage, htype]

/-- A `Subscribe` changes the workspace only as `AddClient` does, and only for a new client. -/
theorem handleSubscribe_workspace {env : Environment} {req : SubscribeRequest} {handled : Handled}
    (h : handleSubscribe env ws req = some handled) :
    handled.workspace = ws ∨ (ws.clientExists req.clientId = none ∧
      ∃ result, ws.addClient env req = some result ∧ handled.workspace = result.workspace) := by
  rw [handleSubscribe] at h
  split at h
  case h_1 =>
    cases h
    exact Or.inl rfl
  case h_2 hnew =>
    obtain ⟨result, hadd, rfl⟩ := Option.map_eq_some_iff.mp h
    right
    refine ⟨hnew, result, hadd, ?_⟩
    split <;> rfl

theorem exists_handleSubscribe {env : Environment} {req : SubscribeRequest} {result : AddResult}
    (hnew : ws.clientExists req.clientId = none) (hadd : ws.addClient env req = some result) :
    ∃ handled, handleSubscribe env ws req = some handled ∧
      handled.workspace = result.workspace := by
  rw [handleSubscribe, hnew, hadd]
  refine ⟨_, rfl, ?_⟩
  dsimp only
  split <;> rfl

theorem handleUnsubscribe_of_none {clientId : UInt32} (h : ws.clientExists clientId = none) :
    (handleUnsubscribe ws clientId).workspace = ws := by
  rw [handleUnsubscribe, h]

theorem handleUnsubscribe_of_some {clientId : UInt32} {i : Fin maxClients}
    (h : ws.clientExists clientId = some i) :
    (handleUnsubscribe ws clientId).workspace = ws.removeClient clientId := by
  rw [handleUnsubscribe, h]

/-- A message changes the workspace as `AddClient` or `RemoveClient` do, or not at all. -/
theorem messageHandler_cases {a : Arrival} {handled : Handled}
    (h : messageHandler a.env ws a.context a.message = some handled) :
    handled.workspace = ws ∨
      (a.message.type = .subscribe ∧ ws.clientExists a.message.senderId = none ∧
        ∃ req result, req.clientId = a.message.senderId ∧ ws.addClient a.env req = some result ∧
          handled.workspace = result.workspace) ∨
      handled.workspace = ws.removeClient a.message.senderId := by
  cases htype : a.message.type with
  | subscribe =>
      rw [messageHandler_subscribe htype] at h
      rcases handleSubscribe_workspace h with hws | ⟨hnew, result, hadd, hws⟩
      · exact Or.inl hws
      · exact Or.inr (Or.inl ⟨rfl, hnew, _, result, rfl, hadd, hws⟩)
  | unsubscribe =>
      rw [messageHandler_unsubscribe htype] at h
      cases h
      cases hexists : ws.clientExists a.message.senderId with
      | none => exact Or.inl (handleUnsubscribe_of_none hexists)
      | some i => exact Or.inr (Or.inr (handleUnsubscribe_of_some hexists))
  | subscribeResponse =>
      simp only [messageHandler, htype, Option.some.injEq] at h
      left
      rw [← h]
  | unknown value =>
      simp only [messageHandler, htype, Option.some.injEq] at h
      left
      rw [← h]

theorem BankInv.messageHandler (h : BankInv ws) {a : Arrival} {handled : Handled}
    (hroom : ws.HasRoomFor a.message)
    (hhandled : messageHandler a.env ws a.context a.message = some handled) :
    BankInv handled.workspace := by
  rcases messageHandler_cases hhandled with
    hws | ⟨htype, hnew, req, result, hid, hadd, hws⟩ | hws
  · rwa [hws]
  · obtain ⟨i, hclear⟩ := h.exists_firstClearBit (hroom htype hnew)
    rw [← hid] at hnew
    rw [hws]
    exact h.addClient hnew hclear hadd
  · rw [hws]
    exact h.removeClient _

theorem bankInv_of_reachable (h : roomyMachine.Reachable ws) : BankInv ws := by
  apply Lib.Machine.Reachable.invariant (I := BankInv) ?_ ?_ h
  · rintro s ⟨serverPid, rfl⟩
    exact BankInv.initial serverPid
  · intro s a t hs hstep
    simp only [roomyMachine] at hstep
    split at hstep
    case isTrue hroom =>
      obtain ⟨handled, hhandled, rfl⟩ := Option.map_eq_some_iff.mp hstep
      exact hs.messageHandler hroom hhandled
    case isFalse => cases hstep

/-- Between messages live ids are distinct and the bit set is right, and an `Unsubscribe` frees the
slot of its sender and touches nothing else. -/
theorem unsubscribe_frees_own_slot (h : roomyMachine.Reachable ws) :
    (∀ i : Fin maxClients, getBit ws.validClientsBitSet i = (ws.clientBank i).subscribed) ∧
    (∀ i j, (ws.clientBank i).subscribed = true → (ws.clientBank j).subscribed = true →
      (ws.clientBank i).id = (ws.clientBank j).id → i = j) ∧
    ∀ env context (message : ClientServerMessage), message.type = .unsubscribe →
      ∃ handled, messageHandler env ws context message = some handled ∧
        (∀ i, (ws.clientBank i).subscribed = true → (ws.clientBank i).id = message.senderId →
          ws.clientExists message.senderId = some i ∧
          ws.firstWithId message.senderId = some i ∧
          handled.workspace.clientBank =
            Function.update ws.clientBank i { ws.clientBank i with subscribed := false } ∧
          ∀ j : Fin maxClients, getBit handled.workspace.validClientsBitSet j =
            if j = i then false else getBit ws.validClientsBitSet j) ∧
        ((∀ i, (ws.clientBank i).subscribed = true → (ws.clientBank i).id ≠ message.senderId) →
          handled.workspace = ws) := by
  have hinv := bankInv_of_reachable h
  refine ⟨hinv.valid_iff, fun i j => hinv.id_injective, ?_⟩
  intro env context message htype
  refine ⟨_, messageHandler_unsubscribe htype, ?_, ?_⟩
  · intro i hsub hid
    have hexists : ws.clientExists message.senderId = some i := by
      rw [← hid]
      exact hinv.clientExists_of_subscribed hsub
    have hfirst := hinv.firstWithId_of_clientExists hexists
    have hindex : ws.indexToRemove message.senderId = i := by
      rw [indexToRemove, hfirst, Option.getD_some]
    refine ⟨hexists, hfirst, ?_, ?_⟩
    · rw [handleUnsubscribe_of_some hexists, removeClient_clientBank, hindex]
    · intro j
      rw [handleUnsubscribe_of_some hexists, removeClient_validClientsBitSet, hindex,
        getBit_setBit _ i.isLt j.isLt]
      simp only [Fin.ext_iff]
  · intro hnone
    exact handleUnsubscribe_of_none (clientExists_eq_none.mpr hnone)

/-! ## A full bank -/

def subscriber (clientId : UInt32) : Arrival :=
  { env := { uninitialized := 0, fails := fun _ => false }
    context := { socket := 5 }
    message := { type := .subscribe, senderId := clientId, param1 := 6, param2 := 6, param3 := 0 } }

/-- The clients with the ids below some number have subscribed in their order. -/
structure Filled (ws : ServerWorkspace) (j : Nat) : Prop where
  reachable : roomyMachine.Reachable ws
  subscribed : ∀ i : Fin maxClients, (ws.clientBank i).subscribed = decide (i.val < j)
  id : ∀ i : Fin maxClients, i.val < j → (ws.clientBank i).id = UInt32.ofNat i

namespace Filled

variable {j : Nat}

theorem clientExists (h : Filled ws j) (hj : j ≤ maxClients) :
    ws.clientExists (UInt32.ofNat j) = none := by
  rw [clientExists_eq_none]
  intro i hsub heq
  rw [h.subscribed, decide_eq_true_eq] at hsub
  rw [h.id i hsub] at heq
  have hmax : maxClients < UInt32.size := by decide
  have hnat := congrArg UInt32.toNat heq
  rw [UInt32.toNat_ofNat_of_lt' (i.isLt.trans hmax),
    UInt32.toNat_ofNat_of_lt' (hj.trans_lt hmax)] at hnat
  omega

theorem firstClearBit (h : Filled ws j) (hj : j < maxClients) :
    firstClearBit ws.validClientsBitSet = some ⟨j, hj⟩ := by
  have hinv := bankInv_of_reachable h.reachable
  rw [firstClearBit_eq_some]
  constructor
  · rw [hinv.valid_iff, h.subscribed]
    simp
  · intro i hi
    rw [hinv.valid_iff, h.subscribed, decide_eq_true_eq]
    exact hi

theorem exists_succ (h : Filled ws j) (hj : j < maxClients) : ∃ ws', Filled ws' (j + 1) := by
  have hnew := h.clientExists hj.le
  have hroom : ws.HasRoomFor (subscriber (UInt32.ofNat j)).message := by
    intro _ _
    refine subscribedCount_lt_iff.mpr ⟨⟨j, hj⟩, ?_⟩
    rw [h.subscribed]
    simp
  let req : SubscribeRequest :=
    { clientId := UInt32.ofNat j, m := 6, n := 6, k := 0, context := { socket := 5 } }
  let env : Environment := { uninitialized := 0, fails := fun _ => false }
  obtain ⟨result, hadd, hslot⟩ : ∃ result, ws.addClient env req = some result ∧
      result.slot = ⟨j, hj⟩ := exists_addClient (h.firstClearBit hj)
  obtain ⟨ctx, -, hid, hsub, hadded, hbank, -⟩ := addClient_spec hadd
  have hadded : result.added = true := hadded
  have hstep : roomyMachine.step ws (subscriber (UInt32.ofNat j)) = some result.workspace := by
    obtain ⟨handled, hhandled, hws⟩ := exists_handleSubscribe hnew hadd
    have hmessage : messageHandler (subscriber (UInt32.ofNat j)).env ws { socket := 5 }
        (subscriber (UInt32.ofNat j)).message = some handled :=
      (messageHandler_subscribe rfl).trans hhandled
    simp only [roomyMachine, if_pos hroom, messageMachine]
    rw [← hws]
    exact congrArg (Option.map Handled.workspace) hmessage
  refine ⟨result.workspace, h.reachable.step hstep, ?_, ?_⟩
  · intro i
    rw [hbank, hslot]
    by_cases heq : i = ⟨j, hj⟩
    · rw [heq, Function.update_self, hsub, hadded]
      simp
    · have hne : i.val ≠ j := fun h => heq (Fin.ext h)
      rw [Function.update_of_ne heq, h.subscribed]
      exact decide_eq_decide.mpr (by omega)
  · intro i hi
    rw [hbank, hslot]
    by_cases heq : i = ⟨j, hj⟩
    · rw [heq, Function.update_self, hid]
    · have hne : i.val ≠ j := fun h => heq (Fin.ext h)
      rw [Function.update_of_ne heq, h.id i (by omega)]

end Filled

theorem exists_filled {j : Nat} (hj : j ≤ maxClients) : ∃ ws, Filled ws j := by
  induction j with
  | zero =>
      refine ⟨ServerWorkspace.initial 1, Lib.Machine.Reachable.of_init ⟨1, rfl⟩, ?_, ?_⟩
      · intro i
        rfl
      · intro i hi
        exact absurd hi (Nat.not_lt_zero _)
  | succ j ih =>
      obtain ⟨ws, hws⟩ := ih (Nat.le_of_succ_le hj)
      exact hws.exists_succ hj

theorem unsubscribe_frees_own_slot_zero :
    ∃ ws, roomyMachine.Reachable ws ∧ ws.clientExists 0 = some ⟨0, by decide⟩ ∧
      ws.firstWithId 0 = some ⟨0, by decide⟩ := by
  obtain ⟨ws, hws⟩ := exists_filled (j := 1) (by decide)
  obtain ⟨-, -, hunsubscribe⟩ := unsubscribe_frees_own_slot hws.reachable
  obtain ⟨handled, -, hfrees, -⟩ := hunsubscribe (subscriber 0).env { socket := 5 }
    { type := .unsubscribe, senderId := 0, param1 := 0, param2 := 0, param3 := 0 } rfl
  obtain ⟨hexists, hfirst, -⟩ := hfrees ⟨0, by decide⟩ (hws.subscribed _) (hws.id _ (by decide))
  exact ⟨ws, hws.reachable, hexists, hfirst⟩

end ServerWorkspace

end MatrixTransposer
