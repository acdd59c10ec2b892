import MatrixTransposer.Lib.Machine

/-!
# The bounded first-in first-out queue

The abstract object a single-producer single-consumer queue stands for: a list of at most `bound`
items whose operations happen at one instant. An operation is recorded together with its answer, so
a run of the machine is a legal sequential history, and an object is linearizable to it when every
concrete run shows such a history, each operation placed at an instant inside its call.
-/

namespace MatrixTransposer.Lib

variable {α : Type*}

inductive FifoOp (α : Type*) where
  | enqueue (item : α) (accepted : Bool)
  | dequeue (answer : Option α)
  deriving DecidableEq

namespace FifoOp

/-- The items of the successful enqueues of a history, in order. -/
def enqueued : List (FifoOp α) → List α :=
  List.filterMap fun op => match op with
    | .enqueue item true => some item
    | _ => none

def dequeued : List (FifoOp α) → List α :=
  List.filterMap fun op => match op with
    | .dequeue answer => answer
    | _ => none

@[simp] theorem enqueued_nil : enqueued ([] : List (FifoOp α)) = [] := rfl

@[simp] theorem dequeued_nil : dequeued ([] : List (FifoOp α)) = [] := rfl

@[simp] theorem enqueued_append (left right : List (FifoOp α)) :
    enqueued (left ++ right) = enqueued left ++ enqueued right :=
  List.filterMap_append

@[simp] theorem dequeued_append (left right : List (FifoOp α)) :
    dequeued (left ++ right) = dequeued left ++ dequeued right :=
  List.filterMap_append

@[simp] theorem enqueued_cons_accepted (item : α) (ops : List (FifoOp α)) :
    enqueued (.enqueue item true :: ops) = item :: enqueued ops := rfl

@[simp] theorem enqueued_cons_refused (item : α) (ops : List (FifoOp α)) :
    enqueued (.enqueue item false :: ops) = enqueued ops := rfl

@[simp] theorem enqueued_cons_dequeue (answer : Option α) (ops : List (FifoOp α)) :
    enqueued (.dequeue answer :: ops) = enqueued ops := rfl

@[simp] theorem dequeued_cons_enqueue (item : α) (accepted : Bool) (ops : List (FifoOp α)) :
    dequeued (.enqueue item accepted :: ops) = dequeued ops := by
  cases accepted <;> rfl

@[simp] theorem dequeued_cons_some (item : α) (ops : List (FifoOp α)) :
    dequeued (.dequeue (some item) :: ops) = item :: dequeued ops := rfl

@[simp] theorem dequeued_cons_none (ops : List (FifoOp α)) :
    dequeued (.dequeue none :: ops) = dequeued ops := rfl

end FifoOp

variable [DecidableEq α]

/-- An enqueue is refused exactly when `bound` items are held, a dequeue exactly when none is. -/
def boundedFifo (α : Type*) [DecidableEq α] (bound : Nat) : Machine (List α) (FifoOp α) where
  init items := items = []
  step items op :=
    match op with
    | .enqueue item true => if items.length < bound then some (items ++ [item]) else none
    | .enqueue _ false => if items.length < bound then none else some items
    | .dequeue none => if items = [] then some items else none
    | .dequeue (some answer) => if items.head? = some answer then some items.tail else none

namespace boundedFifo

variable {bound : Nat} {items items' : List α}

theorem step_enqueue_accepted {item : α} (h : items.length < bound) :
    (boundedFifo α bound).step items (.enqueue item true) = some (items ++ [item]) :=
  if_pos h

theorem step_enqueue_refused {item : α} (h : ¬ items.length < bound) :
    (boundedFifo α bound).step items (.enqueue item false) = some items :=
  if_neg h

theorem step_dequeue_nil : (boundedFifo α bound).step [] (.dequeue none) = some [] := rfl

theorem step_dequeue_cons {item : α} {rest : List α} :
    (boundedFifo α bound).step (item :: rest) (.dequeue (some item)) = some rest :=
  if_pos rfl

theorem step_cases {op : FifoOp α} (h : (boundedFifo α bound).step items op = some items') :
    (∃ item, op = .enqueue item true ∧ items.length < bound ∧ items' = items ++ [item]) ∨
    (∃ item, op = .enqueue item false ∧ ¬ items.length < bound ∧ items' = items) ∨
    (op = .dequeue none ∧ items = [] ∧ items' = []) ∨
    (∃ item, op = .dequeue (some item) ∧ items = item :: items') := by
  match op with
  | .enqueue item true =>
      obtain ⟨hlt, heq⟩ := Option.ite_none_right_eq_some.mp h
      exact Or.inl ⟨item, rfl, hlt, (Option.some.inj heq).symm⟩
  | .enqueue item false =>
      obtain ⟨hfull, heq⟩ := Option.ite_none_left_eq_some.mp h
      exact Or.inr (Or.inl ⟨item, rfl, hfull, (Option.some.inj heq).symm⟩)
  | .dequeue none =>
      obtain ⟨hnil, heq⟩ := Option.ite_none_right_eq_some.mp h
      exact Or.inr (Or.inr (Or.inl ⟨rfl, hnil, (Option.some.inj heq).symm.trans hnil⟩))
  | .dequeue (some item) =>
      obtain ⟨hhead, heq⟩ := Option.ite_none_right_eq_some.mp h
      refine Or.inr (Or.inr (Or.inr ⟨item, rfl, ?_⟩))
      rw [← Option.some.inj heq]
      exact List.eq_cons_of_mem_head? hhead

/-- Nothing is lost, duplicated or reordered: what went in is what came out followed by what is
still held. -/
theorem enqueued_eq_dequeued_append {ops : List (FifoOp α)}
    (h : (boundedFifo α bound).exec items ops = some items') :
    items ++ FifoOp.enqueued ops = FifoOp.dequeued ops ++ items' := by
  induction ops generalizing items with
  | nil => simp [Option.some.inj h]
  | cons op ops ih =>
      obtain ⟨held, hstep, hrest⟩ := Machine.exec_cons_eq_some.mp h
      have hih := ih hrest
      rcases step_cases hstep with
        ⟨item, rfl, _, rfl⟩ | ⟨item, rfl, _, rfl⟩ | ⟨rfl, rfl, rfl⟩ | ⟨item, rfl, rfl⟩
      · simpa using hih
      · simpa using hih
      · simpa using hih
      · simpa using hih

theorem dequeued_prefix_enqueued {ops : List (FifoOp α)}
    (h : (boundedFifo α bound).exec [] ops = some items') :
    FifoOp.dequeued ops <+: FifoOp.enqueued ops :=
  ⟨items', (enqueued_eq_dequeued_append h).symm⟩

end boundedFifo

end MatrixTransposer.Lib
