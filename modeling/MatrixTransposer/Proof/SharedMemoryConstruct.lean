import MatrixTransposer.Proof.SharedMemoryFailure

/-!
# What a constructor does, whatever fails

The constructor leaves the objects alone that exist when it is called, whether it returns or throws.
An owner that returns has made its name and the object under it; a borrower that finds its name maps
that very object.
-/

namespace MatrixTransposer.SharedMemoryObjects

variable {k k' : Kernel} {name : String} {sizeInBytes : UInt64} {ownership : Ownership}
  {initMode : BufferInitMode} {faults : Faults} {result : Except String Nat} {object : Nat}

theorem objects_of_construct
    (h : construct k sizeInBytes name ownership initMode faults = (k', result))
    (hold : object < k.nextObject) : k'.objects object = k.objects object := by
  rw [construct] at h
  split at h
  case h_1 =>
    cases h
    rfl
  case h_2 opened mapped hopen =>
    have hne : object ≠ k.nextObject := Nat.ne_of_lt hold
    dsimp only at h
    obtain ⟨-, ⟨hexclusive, -, rfl⟩ | ⟨-, rfl, rfl⟩⟩ := shmOpen_eq_some hopen
    · -- the object was there, and only an owner touches what it opens
      rw [decide_eq_false_iff_not] at hexclusive
      rw [if_neg hexclusive] at h
      dsimp only at h
      split at h
      · cases h
        rfl
      · rw [if_neg fun hzero => hexclusive hzero.1] at h
        cases h
        rfl
    · have hcreated : (k.create name).objects object = k.objects object :=
        create_objects_of_ne hne
      split at h
      case h_1 =>
        cases h
        exact hcreated
      case h_2 sized htruncated =>
        have hsized : sized.objects object = k.objects object := by
          split at htruncated
          · rw [ftruncate_eq_some htruncated, setObject_objects_of_ne hne, hcreated]
          · cases htruncated
            exact hcreated
        split at h
        · cases h
          exact hsized
        · obtain ⟨rfl, -⟩ := Prod.mk.inj h
          split
          · exact (setObject_objects_of_ne hne _).trans hsized
          · exact hsized

theorem owner_ok (h : construct k sizeInBytes name .owner initMode faults = (k', .ok object)) :
    k.names name = none ∧ k'.names = Function.update k.names name (some object) ∧
      (k'.objects object).sizeInBytes = sizeInBytes := by
  rw [construct] at h
  split at h
  case h_1 => cases h
  case h_2 opened mapped hopen =>
    obtain ⟨-, ⟨hexclusive, -⟩ | ⟨hname, rfl, rfl⟩⟩ := shmOpen_eq_some hopen
    · cases hexclusive
    dsimp only at h
    rw [if_pos rfl] at h
    split at h
    case h_1 => cases h
    case h_2 sized htruncated =>
      split at h
      case isTrue => cases h
      case isFalse =>
        rw [ftruncate_eq_some htruncated] at h
        obtain ⟨rfl, hmapped⟩ := Prod.mk.inj h
        obtain rfl := Except.ok.inj hmapped
        refine ⟨hname, ?_, ?_⟩
        · split <;> rfl
        · split
          · simp only [Kernel.fillWithZero, Kernel.setObject, Function.update_self]
          · simp only [Kernel.setObject, Function.update_self]

/-- A borrower that finds its name. -/
theorem borrower_cases (hname : k.names name = some object)
    (h : construct k sizeInBytes name .borrower initMode faults = (k', result)) :
    (result = .ok object ∧ k' = k ∧ sizeInBytes ≠ 0) ∨
      (∃ error, result = .error error) ∧ (k' = k ∨ k' = k.shmUnlink name) := by
  rw [construct] at h
  split at h
  case h_1 =>
    cases h
    exact Or.inr ⟨⟨_, rfl⟩, Or.inl rfl⟩
  case h_2 opened mapped hopen =>
    obtain ⟨-, ⟨-, hfound, rfl⟩ | ⟨hnone, -⟩⟩ := shmOpen_eq_some hopen
    · obtain rfl := Option.some.inj (hname.symm.trans hfound)
      dsimp only at h
      rw [if_neg (by decide)] at h
      dsimp only at h
      split at h
      case isTrue =>
        cases h
        exact Or.inr ⟨⟨_, rfl⟩, Or.inr rfl⟩
      case isFalse hmapped =>
        rw [if_neg fun hzero => by cases hzero.1] at h
        cases h
        refine Or.inl ⟨rfl, rfl, ?_⟩
        rintro rfl
        exact hmapped (by simp [Kernel.mmapFails])
    · cases hname.symm.trans hnone

end MatrixTransposer.SharedMemoryObjects
