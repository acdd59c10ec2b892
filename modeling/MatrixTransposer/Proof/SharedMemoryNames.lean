import MatrixTransposer.Lib.StepCondition
import MatrixTransposer.SharedMemoryObjects

/-!
# Whose names exist

An owner creates its name and takes it away. A borrower is meant to find a name, but it opens it
with `O_CREAT`: without an owner it makes an object of size 0 whose name nobody takes away, maps
that, and keeps every later owner from being created.
-/

namespace MatrixTransposer.SharedMemoryObjects

open Lib

variable {k : Kernel} {s t : State} {a : Action} {os : List (Nat × UInt64)} {name : String}
  {sizeInBytes : UInt64} {initMode : BufferInitMode}

def LiveOwner (s : State) (name : String) : Prop :=
  ∃ id shared, s.live id = some shared ∧ shared.ownership = .owner ∧ shared.name = name

/-- The names are those of the live owners, no owner is refused without another owner of its name,
and every borrower maps an object that an owner has created and given its size. -/
structure NamesOwned (s : State) (os : List (Nat × UInt64)) : Prop where
  name_iff : ∀ name, (s.kernel.names name).isSome = true ↔ LiveOwner s name
  owner_refused : ∀ sizeInBytes name initMode error, sizeInBytes ≠ 0 →
    (construct s.kernel sizeInBytes name .owner initMode .none).2 = .error error → LiveOwner s name
  borrower_sized : ∀ id shared, s.live id = some shared → shared.ownership = .borrower →
    ∃ sizeInBytes, (shared.object, sizeInBytes) ∈ os ∧ sizeInBytes ≠ 0 ∧
      (s.kernel.objects shared.object).sizeInBytes = sizeInBytes

/-- A borrower is constructed only while its name exists. -/
def borrowsExisting (s : State) : Action → Bool
  | .construct _ _ name .borrower _ _ => (s.kernel.names name).isSome
  | _ => true

/-! ## The constructor without faults -/

theorem construct_owner_of_some (sizeInBytes : UInt64) (initMode : BufferInitMode)
    (hname : (k.names name).isSome = true) :
    ∃ error, construct k sizeInBytes name .owner initMode .none = (k, .error error) := by
  obtain ⟨object, hobject⟩ := Option.isSome_iff_exists.mp hname
  simp [construct, Kernel.shmOpen, Faults.none, hobject]

/-- What a new owner leaves: its name, and under it an object of its own with its size. -/
theorem construct_owner_of_none (initMode : BufferInitMode) (hname : k.names name = none)
    (hsize : sizeInBytes ≠ 0) :
    ∃ k', construct k sizeInBytes name .owner initMode .none = (k', .ok k.nextObject) ∧
      k'.names = Function.update k.names name (some k.nextObject) ∧
      k'.nextObject = k.nextObject + 1 ∧
      (k'.objects k.nextObject).sizeInBytes = sizeInBytes ∧
      ∀ object, object ≠ k.nextObject → k'.objects object = k.objects object := by
  let sized := (k.create name).setObject k.nextObject
    { (k.create name).objects k.nextObject with sizeInBytes := sizeInBytes }
  have hothers : ∀ object, object ≠ k.nextObject → sized.objects object = k.objects object := by
    intro object hne
    simp [sized, Kernel.setObject, Kernel.create, Function.update_of_ne hne]
  cases initMode with
  | zero =>
      refine ⟨sized.fillWithZero k.nextObject sizeInBytes, ?_, rfl, rfl, ?_, ?_⟩
      · simp [construct, Kernel.shmOpen, Faults.none, hname, Kernel.ftruncate, Kernel.mmapFails,
          hsize, sized]
      · simp [sized, Kernel.fillWithZero, Kernel.setObject]
      · intro object hne
        rw [← hothers object hne]
        exact Function.update_of_ne hne _ _
  | noInit =>
      refine ⟨sized, ?_, rfl, rfl, ?_, hothers⟩
      · simp [construct, Kernel.shmOpen, Faults.none, hname, Kernel.ftruncate, Kernel.mmapFails,
          hsize, sized]
      · simp [sized, Kernel.setObject]

theorem construct_borrower_of_some {object : Nat} (initMode : BufferInitMode)
    (hname : k.names name = some object) (hsize : sizeInBytes ≠ 0) :
    construct k sizeInBytes name .borrower initMode .none = (k, .ok object) := by
  simp [construct, Kernel.shmOpen, Faults.none, hname, Kernel.mmapFails, hsize]

theorem construct_borrower_of_none (initMode : BufferInitMode) (hname : k.names name = none)
    (hsize : sizeInBytes ≠ 0) :
    construct k sizeInBytes name .borrower initMode .none = (k.create name, .ok k.nextObject) := by
  simp [construct, Kernel.shmOpen, Faults.none, hname, Kernel.mmapFails, hsize]

/-! ## The invariant -/

structure Owned (s : State) (os : List (Nat × UInt64)) : Prop where
  /-- A name refers to the object of a live owner. -/
  owner_of_name : ∀ name object, s.kernel.names name = some object → LiveOwner s name
  name_of_owner : ∀ id shared, s.live id = some shared → shared.ownership = .owner →
    s.kernel.names shared.name = some shared.object
  single : ∀ id id' shared shared', s.live id = some shared → s.live id' = some shared' →
    shared.ownership = .owner → shared'.ownership = .owner → shared.name = shared'.name → id = id'
  old : ∀ id shared, s.live id = some shared → shared.object < s.kernel.nextObject
  sized : ∀ id shared, s.live id = some shared → ∃ sizeInBytes,
    (shared.object, sizeInBytes) ∈ os ∧ sizeInBytes ≠ 0 ∧
      (s.kernel.objects shared.object).sizeInBytes = sizeInBytes

theorem owned_initial : Owned initial [] where
  owner_of_name := fun _ _ h => by cases h
  name_of_owner := fun _ _ h => by cases h
  single := fun _ _ _ _ h => by cases h
  old := fun _ _ h => by cases h
  sized := fun _ _ h => by cases h

theorem Owned.isSome_iff (h : Owned s os) (name : String) :
    (s.kernel.names name).isSome = true ↔ LiveOwner s name := by
  constructor
  · intro hname
    obtain ⟨object, hobject⟩ := Option.isSome_iff_exists.mp hname
    exact h.owner_of_name name object hobject
  · rintro ⟨id, shared, hlive, hownership, rfl⟩
    rw [h.name_of_owner id shared hlive hownership]
    rfl

theorem Owned.namesOwned (h : Owned s os) : NamesOwned s os where
  name_iff := h.isSome_iff
  owner_refused := by
    intro sizeInBytes name initMode error hsize herror
    rw [← h.isSome_iff]
    by_contra hnone
    rw [Bool.not_eq_true, Option.isSome_eq_false_iff, Option.isNone_iff_eq_none] at hnone
    obtain ⟨k', hok, _⟩ := construct_owner_of_none initMode hnone hsize
    rw [hok] at herror
    cases herror
  borrower_sized := fun id shared hlive _ => h.sized id shared hlive

theorem live_update_cases {live : Nat → Option Instance} {id id' : Nat} {v : Option Instance}
    {shared : Instance} (h : Function.update live id v id' = some shared) :
    (id' = id ∧ v = some shared) ∨ (id' ≠ id ∧ live id' = some shared) := by
  by_cases heq : id' = id
  · subst heq
    rw [Function.update_self] at h
    exact Or.inl ⟨rfl, h⟩
  · rw [Function.update_of_ne heq] at h
    exact Or.inr ⟨heq, h⟩

/-- A live object stays live while another one comes or goes. -/
theorem LiveOwner.update (h : LiveOwner s name) {kernel : Kernel} {id : Nat}
    {v : Option Instance} (hid : s.live id = none) :
    LiveOwner { kernel := kernel, live := Function.update s.live id v } name := by
  obtain ⟨id', shared, hlive, howner⟩ := h
  have hne : id' ≠ id := by
    rintro rfl
    cases hid.symm.trans hlive
  exact ⟨id', shared, (Function.update_of_ne hne _ _).trans hlive, howner⟩

theorem Owned.owner (h : Owned s os) {id : Nat} {k' : Kernel} (hid : s.live id = none)
    (hname : s.kernel.names name = none) (hsize : sizeInBytes ≠ 0)
    (hnames : k'.names = Function.update s.kernel.names name (some s.kernel.nextObject))
    (hnext : k'.nextObject = s.kernel.nextObject + 1)
    (hsized : (k'.objects s.kernel.nextObject).sizeInBytes = sizeInBytes)
    (hothers : ∀ object, object ≠ s.kernel.nextObject →
      k'.objects object = s.kernel.objects object) :
    Owned { kernel := k', live := Function.update s.live id (some
      { name, sizeInBytes, ownership := .owner, object := s.kernel.nextObject }) }
      (os ++ [(s.kernel.nextObject, sizeInBytes)]) := by
  have hfresh : ∀ id' shared, s.live id' = some shared → shared.ownership = .owner →
      shared.name ≠ name := by
    rintro id' shared hlive howner rfl
    cases hname.symm.trans (h.name_of_owner id' shared hlive howner)
  refine ⟨?_, ?_, ?_, ?_, ?_⟩
  · intro name' object hobject
    by_cases heq : name' = name
    · subst heq
      exact ⟨id, _, Function.update_self _ _ _, rfl, rfl⟩
    · rw [hnames, Function.update_of_ne heq] at hobject
      exact (h.owner_of_name name' object hobject).update hid
  · intro id' shared hlive howner
    rw [hnames]
    rcases live_update_cases hlive with ⟨_, hnew⟩ | ⟨_, hold⟩
    · cases hnew
      exact Function.update_self _ _ _
    · rw [Function.update_of_ne (hfresh id' shared hold howner)]
      exact h.name_of_owner id' shared hold howner
  · intro id₁ id₂ shared₁ shared₂ hlive₁ hlive₂ howner₁ howner₂ heq
    rcases live_update_cases hlive₁ with ⟨rfl, hnew₁⟩ | ⟨_, hold₁⟩ <;>
      rcases live_update_cases hlive₂ with ⟨rfl, hnew₂⟩ | ⟨_, hold₂⟩
    · rfl
    · cases hnew₁
      exact absurd heq.symm (hfresh id₂ shared₂ hold₂ howner₂)
    · cases hnew₂
      exact absurd heq (hfresh id₁ shared₁ hold₁ howner₁)
    · exact h.single id₁ id₂ shared₁ shared₂ hold₁ hold₂ howner₁ howner₂ heq
  · intro id' shared hlive
    rw [hnext]
    rcases live_update_cases hlive with ⟨_, hnew⟩ | ⟨_, hold⟩
    · cases hnew
      exact Nat.lt_succ_self _
    · exact Nat.lt_succ_of_lt (h.old id' shared hold)
  · intro id' shared hlive
    rcases live_update_cases hlive with ⟨_, hnew⟩ | ⟨_, hold⟩
    · cases hnew
      exact ⟨sizeInBytes, List.mem_append_right _ List.mem_cons_self, hsize, hsized⟩
    · obtain ⟨size, hmem, hne, hset⟩ := h.sized id' shared hold
      refine ⟨size, List.mem_append_left _ hmem, hne, ?_⟩
      rw [hothers _ (Nat.ne_of_lt (h.old id' shared hold))]
      exact hset

theorem Owned.borrower (h : Owned s os) {id object : Nat} (hid : s.live id = none)
    (hname : s.kernel.names name = some object) :
    Owned { s with live := Function.update s.live id (some
      { name, sizeInBytes, ownership := .borrower, object }) } os := by
  obtain ⟨owner, shared, hlive, howner, rfl⟩ := h.owner_of_name name object hname
  obtain rfl : shared.object = object :=
    Option.some.inj ((h.name_of_owner owner shared hlive howner).symm.trans hname)
  refine ⟨?_, ?_, ?_, ?_, ?_⟩
  · exact fun name' object hobject => (h.owner_of_name name' object hobject).update hid
  · intro id' shared' hlive' howner'
    rcases live_update_cases hlive' with ⟨_, hnew⟩ | ⟨_, hold⟩
    · cases hnew
      cases howner'
    · exact h.name_of_owner id' shared' hold howner'
  · intro id₁ id₂ shared₁ shared₂ hlive₁ hlive₂ howner₁ howner₂ heq
    rcases live_update_cases hlive₁ with ⟨_, hnew₁⟩ | ⟨_, hold₁⟩
    · cases hnew₁
      cases howner₁
    · rcases live_update_cases hlive₂ with ⟨_, hnew₂⟩ | ⟨_, hold₂⟩
      · cases hnew₂
        cases howner₂
      · exact h.single id₁ id₂ shared₁ shared₂ hold₁ hold₂ howner₁ howner₂ heq
  · intro id' shared' hlive'
    rcases live_update_cases hlive' with ⟨_, hnew⟩ | ⟨_, hold⟩
    · cases hnew
      exact h.old owner shared hlive
    · exact h.old id' shared' hold
  · intro id' shared' hlive'
    rcases live_update_cases hlive' with ⟨_, hnew⟩ | ⟨_, hold⟩
    · cases hnew
      exact h.sized owner shared hlive
    · exact h.sized id' shared' hold

theorem Owned.destroy (h : Owned s os) {id : Nat} {shared : Instance}
    (hid : s.live id = some shared) :
    Owned { kernel := SharedMemoryObjects.destroy s.kernel shared
            live := Function.update s.live id none } os := by
  have hkept : ∀ id' shared', Function.update s.live id none id' = some shared' →
      id' ≠ id ∧ s.live id' = some shared' := by
    intro id' shared' hlive
    rcases live_update_cases hlive with ⟨_, hnone⟩ | hold
    · cases hnone
    · exact hold
  have hothers : ∀ name', LiveOwner s name' →
      (shared.ownership = .owner → name' ≠ shared.name) →
      LiveOwner ⟨SharedMemoryObjects.destroy s.kernel shared, Function.update s.live id none⟩
        name' := by
    rintro name' ⟨id', shared', hlive, howner, rfl⟩ hne
    have hdiff : id' ≠ id := by
      rintro rfl
      cases hid.symm.trans hlive
      exact hne howner rfl
    exact ⟨id', shared', (Function.update_of_ne hdiff _ _).trans hlive, howner, rfl⟩
  have hsingle := fun id₁ id₂ shared₁ shared₂ hlive₁ hlive₂ =>
    h.single id₁ id₂ shared₁ shared₂ (hkept id₁ shared₁ hlive₁).2 (hkept id₂ shared₂ hlive₂).2
  cases hownership : shared.ownership with
  | owner =>
      have hnames : (SharedMemoryObjects.destroy s.kernel shared).names =
          Function.update s.kernel.names shared.name none := by
        simp [SharedMemoryObjects.destroy, hownership, Kernel.shmUnlink]
      have hobjects : (SharedMemoryObjects.destroy s.kernel shared).objects = s.kernel.objects := by
        simp [SharedMemoryObjects.destroy, hownership, Kernel.shmUnlink]
      have hnext : (SharedMemoryObjects.destroy s.kernel shared).nextObject =
          s.kernel.nextObject := by
        simp [SharedMemoryObjects.destroy, hownership, Kernel.shmUnlink]
      refine ⟨?_, ?_, hsingle, ?_, ?_⟩
      · intro name' object hobject
        have hne : name' ≠ shared.name := by
          rintro rfl
          rw [hnames, Function.update_self] at hobject
          cases hobject
        rw [hnames, Function.update_of_ne hne] at hobject
        exact hothers name' (h.owner_of_name name' object hobject) fun _ => hne
      · intro id' shared' hlive howner
        obtain ⟨hdiff, hold⟩ := hkept id' shared' hlive
        -- no other owner has the name that is taken away
        have hne : shared'.name ≠ shared.name := fun heq =>
          hdiff (h.single id' id shared' shared hold hid howner hownership heq)
        rw [hnames, Function.update_of_ne hne]
        exact h.name_of_owner id' shared' hold howner
      · intro id' shared' hlive
        rw [hnext]
        exact h.old id' shared' (hkept id' shared' hlive).2
      · intro id' shared' hlive
        rw [hobjects]
        exact h.sized id' shared' (hkept id' shared' hlive).2
  | borrower =>
      have hkernel : SharedMemoryObjects.destroy s.kernel shared = s.kernel := by
        simp [SharedMemoryObjects.destroy, hownership]
      rw [hkernel] at hothers ⊢
      refine ⟨?_, ?_, hsingle, ?_, ?_⟩
      · intro name' object hobject
        exact hothers name' (h.owner_of_name name' object hobject) fun heq => by
          rw [hownership] at heq
          cases heq
      · exact fun id' shared' hlive => h.name_of_owner id' shared' (hkept id' shared' hlive).2
      · exact fun id' shared' hlive => h.old id' shared' (hkept id' shared' hlive).2
      · exact fun id' shared' hlive => h.sized id' shared' (hkept id' shared' hlive).2

theorem Owned.step (h : Owned s os) (hborrows : borrowsExisting s a = true)
    (hstep : healthyMachine.step s a = some t) : Owned t (os ++ created s a) := by
  obtain ⟨hhealthy, hstep⟩ := Option.ite_none_right_eq_some.mp hstep
  cases a with
  | destroy id =>
      simp only [SharedMemoryObjects.step] at hstep
      split at hstep
      case h_1 => cases hstep
      case h_2 shared hid =>
        cases hstep
        simp only [created, List.append_nil]
        exact h.destroy hid
  | construct id sizeInBytes name ownership initMode faults =>
      simp only [healthy, Bool.and_eq_true, bne_iff_ne, decide_eq_true_eq] at hhealthy
      obtain ⟨hsize, rfl⟩ := hhealthy
      cases hid : s.live id with
      | some shared => simp [SharedMemoryObjects.step, hid] at hstep
      | none =>
          cases ownership with
          | owner =>
              cases hname : s.kernel.names name with
              | none =>
                  obtain ⟨k', hconstruct, hnames, hnext, hsized, hothers⟩ :=
                    construct_owner_of_none initMode hname hsize
                  simp only [SharedMemoryObjects.step, hid, hconstruct] at hstep
                  cases hstep
                  simp only [created, hconstruct]
                  exact h.owner hid hname hsize hnames hnext hsized hothers
              | some object =>
                  have hexists : (s.kernel.names name).isSome = true := by rw [hname]; rfl
                  obtain ⟨error, hconstruct⟩ :=
                    construct_owner_of_some sizeInBytes initMode hexists
                  simp only [SharedMemoryObjects.step, hid, hconstruct] at hstep
                  cases hstep
                  simp only [created, hconstruct, List.append_nil]
                  exact h
          | borrower =>
              obtain ⟨object, hname⟩ := Option.isSome_iff_exists.mp hborrows
              have hconstruct := construct_borrower_of_some initMode hname hsize
              simp only [SharedMemoryObjects.step, hid, hconstruct] at hstep
              cases hstep
              simp only [created, List.append_nil]
              exact h.borrower hid hname

/-- A borrower without an owner makes a name without an owner. -/
theorem Owned.borrows_of_namesOwned (h : Owned s os)
    (hstep : healthyMachine.step s a = some t) (hnames : NamesOwned t (os ++ created s a)) :
    borrowsExisting s a = true := by
  obtain ⟨hhealthy, hstep⟩ := Option.ite_none_right_eq_some.mp hstep
  cases a with
  | destroy id => rfl
  | construct id sizeInBytes name ownership initMode faults =>
      simp only [healthy, Bool.and_eq_true, bne_iff_ne, decide_eq_true_eq] at hhealthy
      obtain ⟨hsize, rfl⟩ := hhealthy
      cases ownership with
      | owner => rfl
      | borrower =>
          cases hid : s.live id with
          | some shared => simp [SharedMemoryObjects.step, hid] at hstep
          | none =>
              by_contra hborrows
              have hname : s.kernel.names name = none := by
                simpa [borrowsExisting] using hborrows
              have hconstruct := construct_borrower_of_none initMode hname hsize
              simp only [SharedMemoryObjects.step, hid, hconstruct] at hstep
              cases hstep
              have hexists : ((s.kernel.create name).names name).isSome = true := by
                simp [Kernel.create]
              obtain ⟨id', shared, hlive, howner, hsame⟩ := (hnames.name_iff name).mp hexists
              rcases live_update_cases hlive with ⟨_, hnew⟩ | ⟨_, hold⟩
              · cases hnew
                cases howner
              · subst hsame
                cases hname.symm.trans (h.name_of_owner id' shared hold howner)

/-- **When the names are those of the live owners.** Among any processes that construct and destroy
`SharedMemory` objects in any order, a name exists exactly while an owner of it is live, owners are
refused only by owners, and borrowers map objects that an owner has given their size, all the time,
if and only if no borrower is ever constructed while its name does not exist. -/
theorem names_owned_iff (acts : List Action) :
    healthyMachine.Throughout created NamesOwned initial acts ↔
      healthyMachine.Steps (fun s a => borrowsExisting s a = true) initial acts :=
  Machine.throughout_iff_steps (I := Owned) (fun _ _ _ _ h hborrows hstep => h.step hborrows hstep)
    (fun _ _ h => h.namesOwned) (fun _ _ _ _ h hstep hnames => h.borrows_of_namesOwned hstep hnames)
    owned_initial

/-- A waker attaches to its futex before the waiter has created it: from then on the name has no
owner, and the waiter's own construction is refused. -/
theorem borrower_first_blocks_owner :
    ¬ healthyMachine.Throughout created NamesOwned initial
      [.construct 0 4 "futex" .borrower .noInit .none] := by
  intro hthroughout
  have hnames := hthroughout _ _ List.prefix_rfl rfl
  obtain ⟨id, shared, hlive, howner, _⟩ :=
    hnames.owner_refused 4 "futex" .zero "Failed to create shared memory object for futex"
      (by decide) (by decide +kernel)
  rcases live_update_cases hlive with ⟨_, hnew⟩ | ⟨_, hold⟩
  · cases hnew
    cases howner
  · cases hold

end MatrixTransposer.SharedMemoryObjects
