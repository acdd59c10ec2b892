import MatrixTransposer.Lib.StepCondition
import MatrixTransposer.Proof.AddClientFailure

/-!
# The number of clients a `SubscribeResponse` carries

The handler reports the size of the bank, which has all of its slots from the start. That is the
number of subscribed clients when the new one takes the last slot.
-/

namespace MatrixTransposer

/-! ## Counting slots -/

section Count

variable {ι : Type*} [DecidableEq ι] {l : List ι} {i : ι}

theorem countP_update_of_notMem (hi : i ∉ l) (p : ι → Bool) (b : Bool) :
    l.countP (Function.update p i b) = l.countP p := by
  apply List.countP_congr
  intro j hj
  have hne : j ≠ i := by
    rintro rfl
    exact hi hj
  rw [Function.update_of_ne hne]

theorem countP_update (hl : l.Nodup) (hi : i ∈ l) (p : ι → Bool) (b : Bool) :
    l.countP (Function.update p i b) + (p i).toNat = l.countP p + b.toNat := by
  have hite : ∀ c : Bool, (if c = true then 1 else 0) = c.toNat := by decide
  induction l with
  | nil => cases hi
  | cons j l ih =>
      obtain ⟨hj, hl⟩ := List.nodup_cons.mp hl
      rw [List.countP_cons, List.countP_cons, hite, hite]
      by_cases heq : i = j
      · subst heq
        rw [countP_update_of_notMem hj, Function.update_self]
        omega
      · have hmem := (List.mem_cons.mp hi).resolve_left heq
        have hrest := ih hl hmem
        rw [Function.update_of_ne (Ne.symm heq)]
        omega

end Count

namespace ServerWorkspace

variable {env : Environment} {ws : ServerWorkspace} {result : AddResult} {a : Arrival}
  {handled : Handled}

theorem subscribedCount_update {ws' : ServerWorkspace} {i : Fin maxClients} {ctx : ClientContext}
    (h : ws'.clientBank = Function.update ws.clientBank i ctx) :
    ws'.subscribedCount + (ws.clientBank i).subscribed.toNat =
      ws.subscribedCount + ctx.subscribed.toNat := by
  have hbank : (fun j => (ws'.clientBank j).subscribed) =
      Function.update (fun j => (ws.clientBank j).subscribed) i ctx.subscribed := by
    funext j
    rw [h]
    by_cases heq : j = i
    · subst heq
      rw [Function.update_self, Function.update_self]
    · rw [Function.update_of_ne heq, Function.update_of_ne heq]
  rw [subscribedCount, hbank]
  exact countP_update (List.nodup_finRange _) (List.mem_finRange i) _ _

theorem subscribedCount_eq_iff :
    ws.subscribedCount = maxClients ↔ ∀ i, (ws.clientBank i).subscribed = true := by
  have hcount := List.countP_eq_length (l := List.finRange maxClients)
    (p := fun i => (ws.clientBank i).subscribed)
  rw [List.length_finRange] at hcount
  rw [subscribedCount, hcount]
  simp only [List.mem_finRange, true_imp_iff]

/-! ## What is reported -/

/-- The request that the handler makes of a `Subscribe`. -/
def request (a : Arrival) : SubscribeRequest :=
  { clientId := a.message.senderId, m := a.message.param1, n := a.message.param2,
    k := a.message.param3, context := a.context }

/-- The count that a response carries, and the number of clients in the bank when it is sent. -/
def reportedCounts (ws : ServerWorkspace) (a : Arrival) : List (UInt32 × Nat) :=
  match messageHandler a.env ws a.context a.message with
  | none => []
  | some handled =>
      handled.response.toList.map fun response =>
        (response.param3, handled.workspace.subscribedCount)

/-- A client that is not in the bank subscribes, and nothing throws. -/
def subscribesNew (ws : ServerWorkspace) (a : Arrival) : Bool :=
  a.message.type = .subscribe && ws.clientExists a.message.senderId = none &&
    (buildSteps a.message.param3).all fun s => !s.throws (request a) a.env.fails

/-- One slot is left for the new client: the one that is not subscribed or, when no bit is clear,
the one that the uninitialised index names. -/
def OneSlotLeft (env : Environment) (ws : ServerWorkspace) : Prop :=
  if ∀ i : Fin maxClients, getBit ws.validClientsBitSet i = true then
    ∀ j : Fin maxClients, Int32.ofNat j ≠ env.uninitialized → (ws.clientBank j).subscribed = true
  else ws.subscribedCount + 1 = maxClients

theorem bankElement_eq_some {index : Int32} {i : Fin maxClients} (h : bankElement index = some i) :
    Int32.ofNat i = index := by
  rw [bankElement] at h
  split at h
  case isTrue hrange =>
    cases h
    have hlt : index.toInt.toNat < 2 ^ 31 := by
      have hmax : index.toInt < 64 := hrange.2
      omega
    rw [← Int32.toInt_inj, Int32.toInt_ofNat_of_lt hlt]
    exact Int.toNat_of_nonneg hrange.1
  case isFalse => cases h

/-- After an add all slots are subscribed exactly if one was left before. -/
theorem subscribedCount_addClient_iff (hclear : ClearUnsubscribed ws) {req : SubscribeRequest}
    (hadd : ws.addClient env req = some result) (hadded : result.added = true) :
    result.workspace.subscribedCount = maxClients ↔ OneSlotLeft env ws := by
  obtain ⟨ctx, hslot, -, hsub, -, hbank, -⟩ := addClient_spec hadd
  rw [hadded] at hsub
  rw [OneSlotLeft]
  cases hfirst : firstClearBit ws.validClientsBitSet with
  | some i =>
      rw [bankElement_indexToAdd hfirst] at hslot
      obtain rfl := Option.some.inj hslot
      have hbit := (firstClearBit_eq_some.mp hfirst).1
      have hcount := subscribedCount_update hbank
      rw [hclear _ hbit, hsub, Bool.toNat_false, Bool.toNat_true, Nat.add_zero] at hcount
      have hnot : ¬ ∀ i : Fin maxClients, getBit ws.validClientsBitSet i = true := by
        intro hall
        rw [hall] at hbit
        cases hbit
      rw [if_neg hnot, hcount]
  | none =>
      have hall : ∀ i : Fin maxClients, getBit ws.validClientsBitSet i = true := by
        intro i
        have hbit := find?_finRange_eq_none.mp hfirst i
        simpa using hbit
      rw [indexToAdd, hfirst] at hslot
      have hindex := bankElement_eq_some hslot
      rw [if_pos hall, subscribedCount_eq_iff, hbank]
      constructor
      · intro h j hj
        have hne : j ≠ result.slot := by
          rintro rfl
          exact hj hindex
        have hj' := h j
        rwa [Function.update_of_ne hne] at hj'
      · intro h j
        by_cases heq : j = result.slot
        · subst heq
          rw [Function.update_self, hsub]
        · rw [Function.update_of_ne heq]
          apply h
          intro hj
          rw [← hj, bankElement_ofNat] at hslot
          exact heq (Option.some.inj hslot)

theorem reportedCounts_of_new (h : messageHandler a.env ws a.context a.message = some handled)
    (hnew : subscribesNew ws a = true) :
    ∃ result, ws.addClient a.env (request a) = some result ∧ result.added = true ∧
      reportedCounts ws a = [(UInt32.ofNat maxClients, result.workspace.subscribedCount)] := by
  simp only [subscribesNew, Bool.and_eq_true, decide_eq_true_eq] at hnew
  obtain ⟨⟨htype, hnone⟩, hbuilt⟩ := hnew
  have hhandle : handleSubscribe a.env ws (request a) = some handled := by
    rw [← h, messageHandler_subscribe htype]
    rfl
  rw [reportedCounts, h]
  rw [handleSubscribe, show ws.clientExists (request a).clientId = none from hnone] at hhandle
  obtain ⟨result, hadd, hhandled⟩ := Option.map_eq_some_iff.mp hhandle
  have hadded : result.added = true := by
    obtain ⟨-, -, -, -, hadded, -, -⟩ := addClient_spec hadd
    rw [hadded]
    exact runBuild_all_iff.mpr hbuilt
  rw [if_pos hadded] at hhandled
  subst hhandled
  exact ⟨result, hadd, hadded, rfl⟩

theorem response_of_not_new (h : messageHandler a.env ws a.context a.message = some handled)
    (hnew : subscribesNew ws a = false) : handled.response = none := by
  cases htype : a.message.type with
  | subscribe =>
      rw [messageHandler_subscribe htype, handleSubscribe] at h
      split at h
      case h_1 =>
        cases h
        rfl
      case h_2 hnone =>
        obtain ⟨result, hadd, rfl⟩ := Option.map_eq_some_iff.mp h
        have hadded : result.added = false := by
          obtain ⟨-, -, -, -, hadded, -, -⟩ := addClient_spec hadd
          rw [hadded, ← Bool.not_eq_true, runBuild_all_iff]
          intro hbuilt
          have hnew' : subscribesNew ws a = true := by
            rw [subscribesNew, htype, hnone]
            exact hbuilt
          rw [hnew] at hnew'
          cases hnew'
        rw [hadded]
        rfl
  | unsubscribe =>
      rw [messageHandler_unsubscribe htype] at h
      cases h
      rw [handleUnsubscribe]
      split <;> rfl
  | subscribeResponse =>
      simp only [messageHandler, htype, Option.some.injEq] at h
      rw [← h]
  | unknown value =>
      simp only [messageHandler, htype, Option.some.injEq] at h
      rw [← h]

theorem reportedCounts_of_not_new
    (h : messageHandler a.env ws a.context a.message = some handled)
    (hnew : subscribesNew ws a = false) : reportedCounts ws a = [] := by
  rw [reportedCounts, h]
  dsimp only
  rw [response_of_not_new h hnew]
  rfl

/-! ## Sequences of messages -/

def CountsRight (counts : List (UInt32 × Nat)) : Prop := ∀ c ∈ counts, c.1.toNat = c.2

def addsOnlyLast (ws : ServerWorkspace) (a : Arrival) : Prop :=
  subscribesNew ws a = true → OneSlotLeft a.env ws

theorem countsRight_reportedCounts_iff (hclear : ClearUnsubscribed ws)
    (h : messageHandler a.env ws a.context a.message = some handled) :
    CountsRight (reportedCounts ws a) ↔ addsOnlyLast ws a := by
  cases hnew : subscribesNew ws a with
  | false =>
      rw [reportedCounts_of_not_new h hnew]
      simp [CountsRight, addsOnlyLast, hnew]
  | true =>
      obtain ⟨result, hadd, hadded, hcounts⟩ := reportedCounts_of_new h hnew
      rw [hcounts, addsOnlyLast, hnew, ← subscribedCount_addClient_iff hclear hadd hadded]
      have hreported : (UInt32.ofNat maxClients).toNat = maxClients := rfl
      simp only [CountsRight, List.mem_singleton, forall_eq, hreported, true_imp_iff]
      exact eq_comm

theorem countsRight_append {left right : List (UInt32 × Nat)} :
    CountsRight (left ++ right) ↔ CountsRight left ∧ CountsRight right :=
  List.forall_mem_append

/-- **When the reported counts are right.** In every sequence of messages, each response for a new
client carries the number of clients subscribed right after the client was added, if and only if
every client that is added takes the last slot of the bank. -/
theorem counts_right_iff (serverPid : UInt32) (arrivals : List Arrival) :
    messageMachine.Throughout reportedCounts (fun _ counts => CountsRight counts)
        (initial serverPid) arrivals ↔
      messageMachine.Steps addsOnlyLast (initial serverPid) arrivals := by
  apply Lib.Machine.throughout_iff_steps
    (I := fun ws counts => ClearUnsubscribed ws ∧ CountsRight counts)
  · rintro ws counts a t ⟨hclear, hcounts⟩ hlast hstep
    obtain ⟨handled, hhandled, rfl⟩ := Option.map_eq_some_iff.mp hstep
    refine ⟨hclear.messageHandler hhandled, ?_⟩
    rw [countsRight_append, countsRight_reportedCounts_iff hclear hhandled]
    exact ⟨hcounts, hlast⟩
  · exact fun ws counts h => h.2
  · rintro ws counts a t ⟨hclear, -⟩ hstep hcounts
    obtain ⟨handled, hhandled, rfl⟩ := Option.map_eq_some_iff.mp hstep
    rw [← countsRight_reportedCounts_iff hclear hhandled]
    exact (countsRight_append.mp hcounts).2
  · exact ⟨ClearUnsubscribed.initial serverPid, by intro c hc; cases hc⟩

/-- The first client of the server is told that there are 64. -/
theorem first_count_wrong :
    ¬ messageMachine.Throughout reportedCounts (fun _ counts => CountsRight counts) (initial 1)
      [{ env := { uninitialized := 0, fails := fun _ => false }, context := { socket := 5 }
         message := { type := .subscribe, senderId := 7, param1 := 6, param2 := 6, param3 := 0 } }]
        := by
  intro hthroughout
  have hcounts := hthroughout _ _ List.prefix_rfl rfl
  exact absurd (hcounts (64, 1) (by decide +kernel)) (by decide)

end ServerWorkspace

end MatrixTransposer
