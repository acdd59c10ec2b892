import MatrixTransposer.Lib.BoundedFifo

/-!
# Calls made one after the other

The calls of an object are several accesses long. Used without concurrency, each is run to its
answer before the next one is made: `finish` runs the accesses of the call that is under way,
`answers` a list of calls. An object that answers one call as an abstract object does, and comes out
of it in a related state, answers every list of calls as the abstract object does.
-/

namespace MatrixTransposer.Lib

variable {σ τ α β γ : Type*}

namespace Machine

variable {M : Machine σ α}

variable (M) in
/-- Repeats an access until it shows the answer of the call, at most `fuel` times. -/
def finish (obs : σ → α → List β) (access : α) : Nat → σ → Option (σ × β)
  | 0, _ => none
  | fuel + 1, s =>
      (M.step s access).bind fun t =>
        match obs s access with
        | [] => finish obs access fuel t
        | answer :: _ => some (t, answer)

variable {access : α} {s : σ}

/-- An access that brings a call nearer to its end, whatever else it keeps, brings it to its end. -/
theorem exec_replicate_to_end {I : σ → Prop} (left : σ → Nat)
    (hstep : ∀ s, I s → left s ≠ 0 → ∃ t, M.step s access = some t ∧ I t ∧ left t < left s)
    (hs : I s) :
    ∃ k t, M.exec s (List.replicate k access) = some t ∧ I t ∧ left t = 0 := by
  induction hleft : left s using Nat.strongRecOn generalizing s with
  | _ n ih =>
      by_cases hend : left s = 0
      · exact ⟨0, s, rfl, hs, hend⟩
      · obtain ⟨r, hfirst, hr, hlt⟩ := hstep s hs hend
        obtain ⟨k, t, hrest, ht, hzero⟩ := ih (left r) (hleft ▸ hlt) hr rfl
        exact ⟨k + 1, t, exec_cons_eq_some.mpr ⟨r, hfirst, hrest⟩, ht, hzero⟩

end Machine

/-- The answers to a list of calls, each made when the one before it has returned. -/
def answers (call : σ → γ → Option (σ × β)) : σ → List γ → Option (List β)
  | _, [] => some []
  | s, c :: calls =>
      (call s c).bind fun (t, answer) => (answers call t calls).map (answer :: ·)

/-- The answers of an object whose calls return at once. -/
def responses (call : τ → γ → τ × β) : τ → List γ → List β
  | _, [] => []
  | x, c :: calls => (call x c).2 :: responses call (call x c).1 calls

/-- **The call rule.** What relates two objects after one call, with equal answers, makes them
answer every list of calls alike. -/
theorem answers_eq_responses {R : σ → τ → Prop} {concrete : σ → γ → Option (σ × β)}
    {abstract : τ → γ → τ × β} {calls : List γ}
    (hcall : ∀ s x, ∀ c ∈ calls, R s x →
      ∃ t, concrete s c = some (t, (abstract x c).2) ∧ R t (abstract x c).1)
    {s : σ} {x : τ} (hR : R s x) :
    answers concrete s calls = some (responses abstract x calls) := by
  induction calls generalizing s x with
  | nil => rfl
  | cons c calls ih =>
      obtain ⟨t, hconcrete, ht⟩ := hcall s x c List.mem_cons_self hR
      have hrest := ih (fun s x d hd => hcall s x d (List.mem_cons_of_mem c hd)) ht
      simp [answers, responses, hconcrete, hrest]

/-! ### The bounded queue, call by call -/

inductive FifoCall (α : Type*) where
  | enqueue (item : α)
  | dequeue
  deriving DecidableEq

namespace boundedFifo

/-- The items a call leaves, and its answer. -/
def call (bound : Nat) (items : List α) : FifoCall α → List α × FifoOp α
  | .enqueue item =>
      if items.length < bound then (items ++ [item], .enqueue item true)
      else (items, .enqueue item false)
  | .dequeue =>
      match items with
      | [] => ([], .dequeue none)
      | item :: rest => (rest, .dequeue (some item))

variable {bound : Nat} {items : List α}

theorem call_enqueue_accepted {item : α} (h : items.length < bound) :
    call bound items (.enqueue item) = (items ++ [item], .enqueue item true) :=
  if_pos h

theorem call_enqueue_refused {item : α} (h : ¬ items.length < bound) :
    call bound items (.enqueue item) = (items, .enqueue item false) :=
  if_neg h

/-- The calls of a queue nobody fills: the items it holds are delivered, then every call is
refused. -/
theorem responses_dequeue (bound n : Nat) (items : List α) :
    responses (call bound) items (List.replicate n .dequeue) =
      ((items.take n).map fun item => .dequeue (some item)) ++
        List.replicate (n - items.length) (.dequeue none) := by
  induction n generalizing items with
  | zero => simp [responses]
  | succ n ih =>
      cases items with
      | nil => simp [List.replicate_succ, responses, call, ih]
      | cons item rest => simp [List.replicate_succ, responses, call, ih]

variable [DecidableEq α]

theorem step_call (c : FifoCall α) :
    (boundedFifo α bound).step items (call bound items c).2 = some (call bound items c).1 := by
  cases c with
  | enqueue item =>
      by_cases hroom : items.length < bound
      · rw [call_enqueue_accepted hroom]
        exact step_enqueue_accepted hroom
      · rw [call_enqueue_refused hroom]
        exact step_enqueue_refused hroom
  | dequeue =>
      cases items with
      | nil => exact step_dequeue_nil
      | cons item rest => exact step_dequeue_cons

/-- The answers are a legal history of the queue. -/
theorem exec_responses (calls : List (FifoCall α)) :
    ∃ left, (boundedFifo α bound).exec items (responses (call bound) items calls) = some left := by
  induction calls generalizing items with
  | nil => exact ⟨items, rfl⟩
  | cons c calls ih =>
      obtain ⟨left, hleft⟩ := @ih (call bound items c).1
      exact ⟨left, Machine.exec_cons_eq_some.mpr ⟨_, step_call c, hleft⟩⟩

end boundedFifo

end MatrixTransposer.Lib
