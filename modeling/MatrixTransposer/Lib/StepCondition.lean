import MatrixTransposer.Lib.Machine

/-!
# Which steps keep a property

A property of the states a run reaches, and of the events it has shown up to there, may be lost with
some steps only. If an invariant is kept by every step that meets a condition, and a step that does
not meet it leads out of the property, then the runs that have the property throughout are exactly
those whose steps all meet the condition.
-/

namespace MatrixTransposer.Lib.Machine

variable {σ α β : Type*} {M : Machine σ α}

variable (M) in
/-- Every step the run makes meets the condition. -/
def Steps (C : σ → α → Prop) : σ → List α → Prop
  | _, [] => True
  | s, a :: as => ∀ t, M.step s a = some t → C s a ∧ Steps C t as

variable (M) in
/-- The property holds of every state the run reaches and of the events shown up to there. -/
def Throughout (obs : σ → α → List β) (P : σ → List β → Prop) (s : σ) (acts : List α) : Prop :=
  ∀ before t, before <+: acts → M.exec s before = some t → P t (M.trace obs s before)

/-- On a given run the condition can be evaluated, step by step. -/
instance decidableSteps {C : σ → α → Prop} [∀ s a, Decidable (C s a)] :
    ∀ (s : σ) (acts : List α), Decidable (M.Steps C s acts)
  | _, [] => isTrue trivial
  | s, a :: as =>
      match hstep : M.step s a with
      | none => isTrue fun t ht => by cases hstep.symm.trans ht
      | some t =>
          have : Decidable (M.Steps C t as) := decidableSteps t as
          decidable_of_iff (C s a ∧ M.Steps C t as)
            ⟨fun h r hr => Option.some.inj (hstep.symm.trans hr) ▸ h, fun h => h t hstep⟩

variable {obs : σ → α → List β} {A C : σ → α → Prop} {P I : σ → List β → Prop} {s : σ}
  {acts : List α}

theorem steps_true (s : σ) (acts : List α) : M.Steps (fun _ _ => True) s acts := by
  induction acts generalizing s with
  | nil => trivial
  | cons a as ih => exact fun t _ => ⟨trivial, ih t⟩

theorem Steps.and (hA : M.Steps A s acts) (hC : M.Steps C s acts) :
    M.Steps (fun s a => A s a ∧ C s a) s acts := by
  induction acts generalizing s with
  | nil => trivial
  | cons a as ih =>
      intro t hstep
      obtain ⟨hA, hA'⟩ := hA t hstep
      obtain ⟨hC, hC'⟩ := hC t hstep
      exact ⟨⟨hA, hC⟩, ih hA' hC'⟩

theorem Steps.head_part {before : List α} (h : M.Steps C s acts) (hbefore : before <+: acts) :
    M.Steps C s before := by
  induction before generalizing s acts with
  | nil => trivial
  | cons a as ih =>
      obtain ⟨rest, rfl⟩ := hbefore
      intro t hstep
      obtain ⟨hC, hsteps⟩ := h t hstep
      exact ⟨hC, ih hsteps ⟨rest, rfl⟩⟩

theorem exec_trace_of_steps
    (hkeep : ∀ s os a t, I s os → C s a → M.step s a = some t → I t (os ++ obs s a)) {t : σ}
    {os : List β} (hs : I s os) (hsteps : M.Steps C s acts) (hrun : M.exec s acts = some t) :
    I t (os ++ M.trace obs s acts) := by
  induction acts generalizing s os with
  | nil =>
      rw [← Option.some.inj hrun, trace_nil, List.append_nil]
      exact hs
  | cons a as ih =>
      obtain ⟨r, hfirst, hrest⟩ := exec_cons_eq_some.mp hrun
      obtain ⟨hC, hsteps'⟩ := hsteps r hfirst
      rw [trace_cons hfirst, ← List.append_assoc]
      exact ih (hkeep s os a r hs hC hfirst) hsteps' hrest

theorem throughout_of_steps
    (hkeep : ∀ s os a t, I s os → C s a → M.step s a = some t → I t (os ++ obs s a))
    (hprop : ∀ s os, I s os → P s os) (hs : I s []) (hsteps : M.Steps C s acts) :
    M.Throughout obs P s acts := by
  intro before t hbefore hrun
  apply hprop
  exact exec_trace_of_steps hkeep hs (hsteps.head_part hbefore) hrun

theorem exec_preserves_of_steps {I : σ → Prop}
    (hkeep : ∀ s a t, I s → C s a → M.step s a = some t → I t) {t : σ} (hs : I s)
    (hsteps : M.Steps C s acts) (hrun : M.exec s acts = some t) : I t := by
  induction acts generalizing s with
  | nil => exact Option.some.inj hrun ▸ hs
  | cons a as ih =>
      obtain ⟨r, hfirst, hrest⟩ := exec_cons_eq_some.mp hrun
      obtain ⟨hC, hsteps'⟩ := hsteps r hfirst
      exact ih (hkeep s a r hs hC hfirst) hsteps' hrest

/-- **The termination rule.** If every step that meets the condition lowers a measure, a run of such
steps is not longer than the measure. -/
theorem length_add_le_of_steps {I : σ → Prop} (measure : σ → Nat)
    (hlower : ∀ s a t, I s → C s a → M.step s a = some t → I t ∧ measure t < measure s) {t : σ}
    (hs : I s) (hsteps : M.Steps C s acts) (hrun : M.exec s acts = some t) :
    acts.length + measure t ≤ measure s := by
  induction acts generalizing s with
  | nil => simp [Option.some.inj hrun]
  | cons a as ih =>
      obtain ⟨r, hfirst, hrest⟩ := exec_cons_eq_some.mp hrun
      obtain ⟨hC, hsteps'⟩ := hsteps r hfirst
      obtain ⟨hr, hlt⟩ := hlower s a r hs hC hfirst
      have hlength := ih hr hsteps' hrest
      rw [List.length_cons]
      omega

/-- If a step that meets the condition is always possible, there are runs of every length. -/
theorem exists_steps_of_length {I : σ → Prop}
    (hnext : ∀ s, I s → ∃ a t, C s a ∧ M.step s a = some t ∧ I t) (hs : I s) (n : Nat) :
    ∃ acts t, M.Steps C s acts ∧ M.exec s acts = some t ∧ acts.length = n := by
  induction n generalizing s with
  | zero => exact ⟨[], s, trivial, rfl, rfl⟩
  | succ n ih =>
      obtain ⟨a, r, hC, hstep, hr⟩ := hnext s hs
      obtain ⟨acts, t, hsteps, hrun, hlength⟩ := ih hr
      refine ⟨a :: acts, t, fun u hu => ?_, exec_cons_eq_some.mpr ⟨r, hstep, hrun⟩, ?_⟩
      · rw [Option.some.inj (hu.symm.trans hstep)]
        exact ⟨hC, hsteps⟩
      · rw [List.length_cons, hlength]

/-- The property of all states from here on, given what has been shown before. -/
theorem steps_of_forall
    (hkeep : ∀ s os a t, I s os → A s a → C s a → M.step s a = some t → I t (os ++ obs s a))
    (hexact : ∀ s os a t, I s os → A s a → M.step s a = some t → P t (os ++ obs s a) → C s a)
    {os : List β} (hs : I s os) (hA : M.Steps A s acts)
    (hP : ∀ before t, before <+: acts → M.exec s before = some t →
      P t (os ++ M.trace obs s before)) : M.Steps C s acts := by
  induction acts generalizing s os with
  | nil => trivial
  | cons a as ih =>
      intro t hstep
      obtain ⟨hA, hA'⟩ := hA t hstep
      have hfirst := hP [a] t ⟨as, rfl⟩ (exec_singleton.mpr hstep)
      rw [trace_cons hstep, trace_nil, List.append_nil] at hfirst
      have hC := hexact s os a t hs hA hstep hfirst
      refine ⟨hC, ih (hkeep s os a t hs hA hC hstep) hA' ?_⟩
      intro before u hbefore hrun
      have hlater := hP (a :: before) u (List.cons_prefix_cons.mpr ⟨rfl, hbefore⟩)
        (exec_cons_eq_some.mpr ⟨t, hstep, hrun⟩)
      rwa [trace_cons hstep, ← List.append_assoc] at hlater

/-- **The exact condition**, among the runs whose steps meet an assumption. -/
theorem throughout_iff_steps_of
    (hkeep : ∀ s os a t, I s os → A s a → C s a → M.step s a = some t → I t (os ++ obs s a))
    (hprop : ∀ s os, I s os → P s os)
    (hexact : ∀ s os a t, I s os → A s a → M.step s a = some t → P t (os ++ obs s a) → C s a)
    (hs : I s []) (hA : M.Steps A s acts) : M.Throughout obs P s acts ↔ M.Steps C s acts := by
  constructor
  · exact fun hthroughout => steps_of_forall hkeep hexact hs hA hthroughout
  · intro hsteps
    exact throughout_of_steps (fun s os a t hI hAC => hkeep s os a t hI hAC.1 hAC.2) hprop hs
      (hA.and hsteps)

theorem throughout_iff_steps
    (hkeep : ∀ s os a t, I s os → C s a → M.step s a = some t → I t (os ++ obs s a))
    (hprop : ∀ s os, I s os → P s os)
    (hexact : ∀ s os a t, I s os → M.step s a = some t → P t (os ++ obs s a) → C s a)
    (hs : I s []) : M.Throughout obs P s acts ↔ M.Steps C s acts :=
  throughout_iff_steps_of (A := fun _ _ => True) (fun s os a t hI _ => hkeep s os a t hI) hprop
    (fun s os a t hI _ => hexact s os a t hI) hs (steps_true s acts)

end MatrixTransposer.Lib.Machine
