import MatrixTransposer.Proof.SharedMemoryNames

/-!
# What a constructor that throws leaves behind

An owner that gets past `shm_open` has made its name itself, so that taking it away puts things back
as they were. A borrower may have found the name, and its clean-up takes it away all the same.
-/

namespace MatrixTransposer.SharedMemoryObjects

variable {k k' : Kernel} {s t : State} {a : Action} {name : String} {sizeInBytes : UInt64}
  {ownership : Ownership} {initMode : BufferInitMode} {faults : Faults} {error : String}

/-- Every name refers to an object that has been created. -/
def Kernel.Allocated (k : Kernel) : Prop :=
  ∀ name object, k.names name = some object → object < k.nextObject

structure Namespace where
  kernel : Kernel
  allocated : kernel.Allocated

/-- The same names refer to the same objects, of the same sizes and contents. -/
structure SameNames (k k' : Kernel) : Prop where
  names : k'.names = k.names
  objects : ∀ name object, k.names name = some object → k'.objects object = k.objects object

def FailureKeepsNames (k : Kernel) (sizeInBytes : UInt64) (name : String) (ownership : Ownership)
    (initMode : BufferInitMode) (faults : Faults) : Prop :=
  ∀ k' error, construct k sizeInBytes name ownership initMode faults = (k', .error error) →
    SameNames k k'

/-- A borrower finds its name and cannot map what the name refers to. -/
def borrowsUnmappable (k : Kernel) (sizeInBytes : UInt64) (name : String) (ownership : Ownership)
    (faults : Faults) : Bool :=
  ownership = .borrower && !faults.shmOpen && (k.names name).isSome &&
    Kernel.mmapFails sizeInBytes faults.mmap

theorem SameNames.refl (k : Kernel) : SameNames k k := ⟨rfl, fun _ _ _ => rfl⟩

/-! ## The system calls -/

theorem create_names (k : Kernel) (name : String) :
    (k.create name).names = Function.update k.names name (some k.nextObject) := rfl

theorem shmUnlink_names (k : Kernel) (name : String) :
    (k.shmUnlink name).names = Function.update k.names name none := rfl

theorem create_objects_of_ne {object : Nat} (hne : object ≠ k.nextObject) :
    (k.create name).objects object = k.objects object :=
  Function.update_of_ne hne _ _

theorem setObject_objects_of_ne {object other : Nat} (hne : other ≠ object) (value : ShmObject) :
    (k.setObject object value).objects other = k.objects other :=
  Function.update_of_ne hne _ _

theorem shmOpen_eq_some {exclusive fault : Bool} {object : Nat}
    (h : k.shmOpen name exclusive fault = some (k', object)) :
    fault = false ∧ ((exclusive = false ∧ k.names name = some object ∧ k' = k) ∨
      (k.names name = none ∧ object = k.nextObject ∧ k' = k.create name)) := by
  rw [Kernel.shmOpen] at h
  obtain ⟨hfault, h⟩ := Option.ite_none_left_eq_some.mp h
  refine ⟨Bool.not_eq_true _ ▸ hfault, ?_⟩
  split at h
  case h_1 found hname =>
    obtain ⟨hexclusive, hsome⟩ := Option.ite_none_left_eq_some.mp h
    cases hsome
    exact Or.inl ⟨Bool.not_eq_true _ ▸ hexclusive, hname, rfl⟩
  case h_2 hname =>
    cases h
    exact Or.inr ⟨hname, rfl, rfl⟩

theorem ftruncate_eq_some {object : Nat} {fault : Bool}
    (h : k.ftruncate object sizeInBytes fault = some k') :
    k' = k.setObject object { k.objects object with sizeInBytes := sizeInBytes } := by
  obtain ⟨-, hsome⟩ := Option.ite_none_left_eq_some.mp h
  exact (Option.some.inj hsome).symm

/-- A name that a call has made and takes away again leaves what was there. -/
theorem sameNames_shmUnlink (hk : k.Allocated) (hname : k.names name = none)
    (hnames : k'.names = (k.create name).names)
    (hobjects : ∀ object, object ≠ k.nextObject → k'.objects object = k.objects object) :
    SameNames k (k'.shmUnlink name) := by
  constructor
  · calc
      (k'.shmUnlink name).names =
          Function.update (Function.update k.names name (some k.nextObject)) name none := by
        rw [shmUnlink_names, hnames, create_names]
      _ = Function.update k.names name (k.names name) := by rw [Function.update_idem, hname]
      _ = k.names := Function.update_eq_self _ _
  · intro name' object hobject
    exact hobjects object (Nat.ne_of_lt (hk name' object hobject))

/-! ## The constructor -/

/-- `O_EXCL` is what makes an owner's clean-up right. -/
theorem sameNames_of_owner_error (hk : k.Allocated)
    (h : construct k sizeInBytes name .owner initMode faults = (k', .error error)) :
    SameNames k k' := by
  rw [construct] at h
  split at h
  case h_1 =>
    cases h
    exact SameNames.refl k
  case h_2 opened object hopen =>
    obtain ⟨-, ⟨hexclusive, -⟩ | ⟨hname, rfl, rfl⟩⟩ := shmOpen_eq_some hopen
    · cases hexclusive
    dsimp only at h
    rw [if_pos rfl] at h
    split at h
    case h_1 =>
      cases h
      exact sameNames_shmUnlink hk hname rfl fun _ hne => create_objects_of_ne hne
    case h_2 sized htruncate =>
      split at h
      case isTrue =>
        cases h
        have hsized := ftruncate_eq_some htruncate
        have hnames : sized.names = (k.create name).names := by
          rw [hsized]
          rfl
        have hothers : ∀ object, object ≠ k.nextObject →
            sized.objects object = k.objects object := by
          intro object hne
          rw [hsized, setObject_objects_of_ne hne, create_objects_of_ne hne]
        exact sameNames_shmUnlink hk hname hnames hothers
      case isFalse => cases h

theorem borrower_error_cases (hk : k.Allocated)
    (h : construct k sizeInBytes name .borrower initMode faults = (k', .error error)) :
    SameNames k k' ∨ borrowsUnmappable k sizeInBytes name .borrower faults = true := by
  rw [construct] at h
  split at h
  case h_1 =>
    cases h
    exact Or.inl (SameNames.refl k)
  case h_2 opened object hopen =>
    obtain ⟨hfault, hopened⟩ := shmOpen_eq_some hopen
    dsimp only at h
    rw [if_neg (by decide)] at h
    dsimp only at h
    split at h
    case isFalse => cases h
    case isTrue hmmap =>
      cases h
      rcases hopened with ⟨-, hname, rfl⟩ | ⟨hname, rfl, rfl⟩
      · right
        simp [borrowsUnmappable, hfault, hname, hmmap]
      · left
        exact sameNames_shmUnlink hk hname rfl fun _ hne => create_objects_of_ne hne

/-- The name was there, and is not any more. -/
theorem construct_of_borrowsUnmappable
    (h : borrowsUnmappable k sizeInBytes name ownership faults = true) :
    construct k sizeInBytes name ownership initMode faults =
      (k.shmUnlink name, .error s!"Failed to map shared memory for {name}") := by
  simp only [borrowsUnmappable, Bool.and_eq_true, decide_eq_true_eq, Bool.not_eq_true'] at h
  obtain ⟨⟨⟨rfl, hfault⟩, hname⟩, hmmap⟩ := h
  obtain ⟨object, hobject⟩ := Option.isSome_iff_exists.mp hname
  simp [construct, Kernel.shmOpen, hfault, hobject, hmmap]

theorem names_ne_of_borrowsUnmappable
    (h : borrowsUnmappable k sizeInBytes name ownership faults = true) :
    (k.shmUnlink name).names ≠ k.names := by
  simp only [borrowsUnmappable, Bool.and_eq_true] at h
  obtain ⟨⟨-, hname⟩, -⟩ := h
  intro heq
  have hnone := congrFun heq name
  rw [shmUnlink_names, Function.update_self] at hnone
  rw [← hnone] at hname
  cases hname

/-- **When a failure leaves the names alone.** A constructor that throws leaves the names, and the
sizes and contents of what they refer to, as they were, if and only if it is not a borrower that has
found its name and cannot map it. -/
theorem failure_keeps_names_iff (ns : Namespace) (sizeInBytes : UInt64) (name : String)
    (ownership : Ownership) (initMode : BufferInitMode) (faults : Faults) :
    FailureKeepsNames ns.kernel sizeInBytes name ownership initMode faults ↔
      borrowsUnmappable ns.kernel sizeInBytes name ownership faults = false := by
  constructor
  · intro hkeeps
    by_contra hunmappable
    rw [Bool.not_eq_false] at hunmappable
    have hsame := hkeeps _ _ (construct_of_borrowsUnmappable hunmappable)
    exact names_ne_of_borrowsUnmappable hunmappable hsame.names
  · intro hmappable k' error herror
    cases ownership with
    | owner => exact sameNames_of_owner_error ns.allocated herror
    | borrower =>
        rcases borrower_error_cases ns.allocated herror with hsame | hunmappable
        · exact hsame
        · rw [hmappable] at hunmappable
          cases hunmappable

/-- A client has made its buffer. The server subscribes the client with other dimensions, for which
it computes a size of zero, and the client's buffer has lost its name. -/
theorem failing_borrower_unlinks :
    ¬ FailureKeepsNames (construct initial.kernel 2048 "buffer" .owner .zero .none).1 0 "buffer"
      .borrower .noInit .none := by
  intro hkeeps
  have hunmappable : borrowsUnmappable
      (construct initial.kernel 2048 "buffer" .owner .zero .none).1 0 "buffer" .borrower .none =
        true := by
    decide +kernel
  have hsame := hkeeps _ _ (construct_of_borrowsUnmappable hunmappable)
  exact names_ne_of_borrowsUnmappable hunmappable hsame.names

/-! ## Which name an object was created under -/

/-- Every name refers to an object that has been created, and created under that name. -/
def Kernel.NamedBy (k : Kernel) (nameOf : Nat → String) : Prop :=
  ∀ name object, k.names name = some object → object < k.nextObject ∧ nameOf object = name

/-- Objects are not created twice, and keep the name they were created under. -/
structure Extends (next : Nat) (nameOf : Nat → String) (next' : Nat) (nameOf' : Nat → String) :
    Prop where
  next_le : next ≤ next'
  kept : ∀ object < next, nameOf' object = nameOf object

namespace Kernel.NamedBy

variable {nameOf : Nat → String}

theorem create (h : k.NamedBy nameOf) (name : String) :
    (k.create name).NamedBy (Function.update nameOf k.nextObject name) := by
  intro name' object hobject
  rw [create_names] at hobject
  change object < k.nextObject + 1 ∧ _
  by_cases heq : name' = name
  · subst heq
    rw [Function.update_self, Option.some.injEq] at hobject
    subst hobject
    exact ⟨Nat.lt_succ_self _, Function.update_self _ _ _⟩
  · rw [Function.update_of_ne heq] at hobject
    obtain ⟨hold, hname⟩ := h name' object hobject
    refine ⟨Nat.lt_succ_of_lt hold, ?_⟩
    rw [Function.update_of_ne (Nat.ne_of_lt hold), hname]

theorem shmUnlink (h : k.NamedBy nameOf) (name : String) : (k.shmUnlink name).NamedBy nameOf := by
  intro name' object hobject
  rw [shmUnlink_names] at hobject
  by_cases heq : name' = name
  · subst heq
    rw [Function.update_self] at hobject
    cases hobject
  · rw [Function.update_of_ne heq] at hobject
    exact h name' object hobject

/-- Whether the name is found or made, the object was created under it. -/
theorem shmOpen (h : k.NamedBy nameOf) {exclusive fault : Bool} {object : Nat}
    (hopen : k.shmOpen name exclusive fault = some (k', object)) :
    ∃ nameOf', k'.NamedBy nameOf' ∧ Extends k.nextObject nameOf k'.nextObject nameOf' ∧
      object < k'.nextObject ∧ nameOf' object = name := by
  obtain ⟨-, ⟨-, hname, rfl⟩ | ⟨-, rfl, rfl⟩⟩ := shmOpen_eq_some hopen
  · exact ⟨nameOf, h, ⟨Nat.le_refl _, fun _ _ => rfl⟩, h name object hname⟩
  · refine ⟨_, h.create name, ⟨Nat.le_succ _, ?_⟩, Nat.lt_succ_self _, Function.update_self _ _ _⟩
    exact fun object hold => Function.update_of_ne (Nat.ne_of_lt hold) _ _

theorem construct (h : k.NamedBy nameOf) {result : Except String Nat}
    (hconstruct : construct k sizeInBytes name ownership initMode faults = (k', result)) :
    ∃ nameOf', k'.NamedBy nameOf' ∧ Extends k.nextObject nameOf k'.nextObject nameOf' ∧
      ∀ object, result = .ok object → object < k'.nextObject ∧ nameOf' object = name := by
  rw [SharedMemoryObjects.construct] at hconstruct
  split at hconstruct
  case h_1 =>
    cases hconstruct
    exact ⟨nameOf, h, ⟨Nat.le_refl _, fun _ _ => rfl⟩, fun _ hok => by cases hok⟩
  case h_2 opened object hopen =>
    obtain ⟨nameOf', hopened, hextends, hobject⟩ := h.shmOpen hopen
    dsimp only at hconstruct
    split at hconstruct
    case h_1 =>
      cases hconstruct
      exact ⟨nameOf', hopened.shmUnlink name, hextends, fun _ hok => by cases hok⟩
    case h_2 sized htruncated =>
      -- giving the object its size touches no name
      have hsized : sized.names = opened.names ∧ sized.nextObject = opened.nextObject := by
        split at htruncated
        · rw [ftruncate_eq_some htruncated]
          exact ⟨rfl, rfl⟩
        · cases htruncated
          exact ⟨rfl, rfl⟩
      rw [← hsized.2] at hobject hextends
      have hnamed : sized.NamedBy nameOf' := by
        rw [Kernel.NamedBy, hsized.1, hsized.2]
        exact hopened
      split at hconstruct
      · cases hconstruct
        exact ⟨nameOf', hnamed.shmUnlink name, hextends, fun _ hok => by cases hok⟩
      · obtain ⟨rfl, rfl⟩ := Prod.mk.inj hconstruct
        split
        all_goals
          refine ⟨nameOf', hnamed, hextends, ?_⟩
          rintro _ ⟨rfl⟩
          exact hobject

end Kernel.NamedBy

/-- The live objects were created under the names that their processes hold. -/
structure State.NamedBy (s : State) (nameOf : Nat → String) : Prop where
  kernel : s.kernel.NamedBy nameOf
  live : ∀ id shared, s.live id = some shared →
    shared.object < s.kernel.nextObject ∧ nameOf shared.object = shared.name

theorem namedBy_initial : initial.NamedBy fun _ => "" where
  kernel := fun _ _ h => by cases h
  live := fun _ _ h => by cases h

theorem State.NamedBy.extend {nameOf nameOf' : Nat → String} (h : s.NamedBy nameOf)
    (hkernel : k'.NamedBy nameOf')
    (hextends : Extends s.kernel.nextObject nameOf k'.nextObject nameOf') :
    State.NamedBy { s with kernel := k' } nameOf' where
  kernel := hkernel
  live := by
    intro id shared hlive
    obtain ⟨hold, hname⟩ := h.live id shared hlive
    exact ⟨Nat.lt_of_lt_of_le hold hextends.next_le, (hextends.kept _ hold).trans hname⟩

theorem State.NamedBy.step {nameOf : Nat → String} (h : s.NamedBy nameOf)
    (hstep : machine.step s a = some t) : ∃ nameOf', t.NamedBy nameOf' := by
  cases a with
  | construct id sizeInBytes name ownership initMode faults =>
      simp only [machine, SharedMemoryObjects.step] at hstep
      split at hstep
      case h_1 => cases hstep
      case h_2 =>
        split at hstep
        case h_1 kernel object hconstruct =>
          cases hstep
          obtain ⟨nameOf', hkernel, hextends, hobject⟩ := h.kernel.construct hconstruct
          refine ⟨nameOf', hkernel, ?_⟩
          intro id' shared hlive
          rcases live_update_cases hlive with ⟨_, hnew⟩ | ⟨_, hold⟩
          · cases hnew
            exact hobject object rfl
          · exact (h.extend hkernel hextends).live id' shared hold
        case h_2 kernel error hconstruct =>
          cases hstep
          obtain ⟨nameOf', hkernel, hextends, -⟩ := h.kernel.construct hconstruct
          exact ⟨nameOf', h.extend hkernel hextends⟩
  | destroy id =>
      simp only [machine, SharedMemoryObjects.step] at hstep
      split at hstep
      case h_1 => cases hstep
      case h_2 shared _ =>
        cases hstep
        have hnext : (destroy s.kernel shared).nextObject = s.kernel.nextObject := by
          rw [destroy]
          split <;> rfl
        have hkernel : (destroy s.kernel shared).NamedBy nameOf := by
          rw [destroy]
          split
          · exact h.kernel.shmUnlink shared.name
          · exact h.kernel
        refine ⟨nameOf, hkernel, ?_⟩
        intro id' shared' hlive
        rcases live_update_cases hlive with ⟨_, hnone⟩ | ⟨_, hold⟩
        · cases hnone
        · rw [hnext]
          exact h.live id' shared' hold

theorem namedBy_of_reachable (h : machine.Reachable s) : ∃ nameOf, s.NamedBy nameOf := by
  apply Lib.Machine.Reachable.invariant (I := fun s => ∃ nameOf, s.NamedBy nameOf) ?_ ?_ h
  · rintro s rfl
    exact ⟨_, namedBy_initial⟩
  · rintro s a t ⟨nameOf, hs⟩ hstep
    exact hs.step hstep

theorem allocated_of_reachable (h : machine.Reachable s) : s.kernel.Allocated := by
  obtain ⟨nameOf, hs⟩ := namedBy_of_reachable h
  exact fun name object hobject => (hs.kernel name object hobject).1

/-- Whoever maps the same object has asked for it by the same name. -/
theorem name_eq_of_object_eq (h : machine.Reachable s) {id id' : Nat} {shared shared' : Instance}
    (hlive : s.live id = some shared) (hlive' : s.live id' = some shared')
    (hobject : shared.object = shared'.object) : shared.name = shared'.name := by
  obtain ⟨nameOf, hs⟩ := namedBy_of_reachable h
  rw [← (hs.live id shared hlive).2, ← (hs.live id' shared' hlive').2, hobject]

end MatrixTransposer.SharedMemoryObjects
