import Mathlib.Data.List.Basic
import Mathlib.Tactic.Common

/-!
# Machines and their runs

A machine is a set of initial states and a partial step function. The scheduler and the environment
are part of the action: an action names the thread that moves and everything the step does not
decide by itself, so that a run is a list of actions and an interleaving is nothing but such a list.

Three rules carry every argument about runs. An invariant is checked once per step; a budget that
no step may raise is followed along a segment; and a simulation translates a whole run of one
machine into a run of another, the events of a step being the abstract actions it stands for.
-/

namespace MatrixTransposer.Lib

structure Machine (σ α : Type*) where
  init : σ → Prop
  /-- `none` when the action is not enabled. -/
  step : σ → α → Option σ

namespace Machine

variable {σ α τ β : Type*} (M : Machine σ α)

/-- The state after a list of actions, each of which has to be enabled in its turn. -/
def exec : σ → List α → Option σ
  | s, [] => some s
  | s, a :: as => (M.step s a).bind fun t => exec t as

def Reachable (s : σ) : Prop :=
  ∃ s₀ acts, M.init s₀ ∧ M.exec s₀ acts = some s

variable {M}

@[simp] theorem exec_nil (s : σ) : M.exec s [] = some s := rfl

theorem exec_cons_eq_some {s t : σ} {a : α} {as : List α} :
    M.exec s (a :: as) = some t ↔ ∃ r, M.step s a = some r ∧ M.exec r as = some t := by
  simp [exec, Option.bind_eq_some_iff]

theorem exec_append_eq_some {s t : σ} {as bs : List α} :
    M.exec s (as ++ bs) = some t ↔ ∃ r, M.exec s as = some r ∧ M.exec r bs = some t := by
  induction as generalizing s with
  | nil => simp
  | cons a as ih =>
      rw [List.cons_append, exec_cons_eq_some]
      constructor
      · rintro ⟨r, hstep, hrest⟩
        obtain ⟨q, hleft, hright⟩ := ih.mp hrest
        exact ⟨q, exec_cons_eq_some.mpr ⟨r, hstep, hleft⟩, hright⟩
      · rintro ⟨q, hleft, hright⟩
        obtain ⟨r, hstep, hrest⟩ := exec_cons_eq_some.mp hleft
        exact ⟨r, hstep, ih.mpr ⟨q, hrest, hright⟩⟩

theorem exec_singleton {s t : σ} {a : α} : M.exec s [a] = some t ↔ M.step s a = some t := by
  simp [exec]

theorem Reachable.of_init {s : σ} (h : M.init s) : M.Reachable s :=
  ⟨s, [], h, rfl⟩

theorem Reachable.exec {s t : σ} {acts : List α} (hs : M.Reachable s)
    (hrun : M.exec s acts = some t) : M.Reachable t := by
  obtain ⟨s₀, before, hinit, hbefore⟩ := hs
  exact ⟨s₀, before ++ acts, hinit, exec_append_eq_some.mpr ⟨s, hbefore, hrun⟩⟩

theorem Reachable.step {s t : σ} {a : α} (hs : M.Reachable s) (h : M.step s a = some t) :
    M.Reachable t :=
  hs.exec (exec_singleton.mpr h)

/-- What one step preserves, a whole run preserves. -/
theorem exec_preserves {I : σ → Prop} (hstep : ∀ s a t, I s → M.step s a = some t → I t)
    {s t : σ} {acts : List α} (hs : I s) (hrun : M.exec s acts = some t) : I t := by
  induction acts generalizing s with
  | nil => exact Option.some.inj hrun ▸ hs
  | cons a as ih =>
      obtain ⟨r, hfirst, hrest⟩ := exec_cons_eq_some.mp hrun
      exact ih (hstep s a r hs hfirst) hrest

/-- **The invariant rule.** What holds initially and is kept by every step holds of every reachable
state. -/
theorem Reachable.invariant {I : σ → Prop} (hinit : ∀ s, M.init s → I s)
    (hstep : ∀ s a t, I s → M.step s a = some t → I t) {s : σ} (hs : M.Reachable s) : I s := by
  obtain ⟨s₀, acts, hs₀, hrun⟩ := hs
  exact exec_preserves hstep (hinit s₀ hs₀) hrun

/-- An invariant that a step keeps because it starts from a reachable state. -/
theorem Reachable.induction {I : σ → Prop} (hinit : ∀ s, M.init s → I s)
    (hstep : ∀ s a t, M.Reachable s → I s → M.step s a = some t → I t) {s : σ}
    (hs : M.Reachable s) : I s := by
  have hkeep : ∀ s a t, M.Reachable s ∧ I s → M.step s a = some t → M.Reachable t ∧ I t :=
    fun s a t h hs => ⟨h.1.step hs, hstep s a t h.1 h.2 hs⟩
  exact (hs.invariant (fun s h => ⟨Reachable.of_init h, hinit s h⟩) hkeep).2

variable (M) in
/-- The events a run shows, given what each of its steps shows. -/
def trace (obs : σ → α → List β) : σ → List α → List β
  | _, [] => []
  | s, a :: as =>
      match M.step s a with
      | some t => obs s a ++ trace obs t as
      | none => []

@[simp] theorem trace_nil (obs : σ → α → List β) (s : σ) : M.trace obs s [] = [] := rfl

theorem trace_cons {obs : σ → α → List β} {s t : σ} {a : α} (h : M.step s a = some t)
    (as : List α) : M.trace obs s (a :: as) = obs s a ++ M.trace obs t as := by
  simp [trace, h]

theorem exists_of_mem_trace {obs : σ → α → List β} {s : σ} {acts : List α} {event : β}
    (h : event ∈ M.trace obs s acts) : ∃ a ∈ acts, ∃ t, event ∈ obs t a := by
  induction acts generalizing s with
  | nil => cases h
  | cons a as ih =>
      cases hstep : M.step s a with
      | none => simp [trace, hstep] at h
      | some t =>
          rw [trace_cons hstep] at h
          rcases List.mem_append.mp h with hfirst | hrest
          · exact ⟨a, List.mem_cons_self, s, hfirst⟩
          · obtain ⟨b, hb, hevent⟩ := ih hrest
            exact ⟨b, List.mem_cons_of_mem a hb, hevent⟩

/-- What relates a state to the events shown so far is checked once per action of the run. -/
theorem exec_trace_invariant_of_mem {obs : σ → α → List β} {I : σ → List β → Prop} {s t : σ}
    {os : List β} {acts : List α}
    (hstep : ∀ a ∈ acts, ∀ s os t, I s os → M.step s a = some t → I t (os ++ obs s a))
    (hs : I s os) (hrun : M.exec s acts = some t) : I t (os ++ M.trace obs s acts) := by
  induction acts generalizing s os with
  | nil =>
      rw [← Option.some.inj hrun, trace_nil, List.append_nil]
      exact hs
  | cons a as ih =>
      obtain ⟨r, hfirst, hrest⟩ := exec_cons_eq_some.mp hrun
      rw [trace_cons hfirst, ← List.append_assoc]
      exact ih (fun b hb => hstep b (List.mem_cons_of_mem a hb))
        (hstep a List.mem_cons_self s os r hs hfirst) hrest

theorem exec_trace_invariant {obs : σ → α → List β} {I : σ → List β → Prop}
    (hstep : ∀ s os a t, I s os → M.step s a = some t → I t (os ++ obs s a)) {s t : σ}
    {os : List β} {acts : List α} (hs : I s os) (hrun : M.exec s acts = some t) :
    I t (os ++ M.trace obs s acts) :=
  exec_trace_invariant_of_mem (fun a _ s os t => hstep s os a t) hs hrun

variable (M) in
def Along (C : σ → Prop) (s : σ) (acts : List α) : Prop :=
  ∀ before t, before <+: acts → M.exec s before = some t → C t

theorem Along.head {C : σ → Prop} {s : σ} {acts : List α} (h : M.Along C s acts) : C s :=
  h [] s List.nil_prefix rfl

theorem Along.tail {C : σ → Prop} {s r : σ} {a : α} {acts : List α} (h : M.Along C s (a :: acts))
    (hstep : M.step s a = some r) : M.Along C r acts := by
  intro before t hbefore hrun
  apply h (a :: before) t (List.cons_prefix_cons.mpr ⟨rfl, hbefore⟩)
  exact exec_cons_eq_some.mpr ⟨r, hstep, hrun⟩

/-- What every action of a run preserves holds along it. -/
theorem Along.of_step {C : σ → Prop} {s : σ} {acts : List α} (hs : C s)
    (hstep : ∀ a ∈ acts, ∀ s t, C s → M.step s a = some t → C t) : M.Along C s acts := by
  intro before t hbefore hrun
  replace hstep : ∀ a ∈ before, ∀ s t, C s → M.step s a = some t → C t :=
    fun a ha => hstep a (hbefore.subset ha)
  clear hbefore
  induction before generalizing s with
  | nil => exact Option.some.inj hrun ▸ hs
  | cons a as ih =>
      obtain ⟨r, hfirst, hrest⟩ := exec_cons_eq_some.mp hrun
      exact ih (hstep a List.mem_cons_self s r hs hfirst) hrest
        fun b hb => hstep b (List.mem_cons_of_mem a hb)

/-- **The progress rule.** A budget that no step raises and every counted step lowers is not
overdrawn before the goal is reached. -/
theorem exec_reaches {C Goal : σ → Prop} {I : σ → Nat → Prop} {p : α → Bool}
    (hstep : ∀ s a t n, C s → I s n → M.step s a = some t →
      Goal t ∨ ∃ m, I t m ∧ m + (if p a then 1 else 0) ≤ n)
    {s t : σ} {acts : List α} {n : Nat} (hs : I s n) (halong : M.Along C s acts)
    (hrun : M.exec s acts = some t) :
    (∃ before after u, acts = before ++ after ∧ M.exec s before = some u ∧
        M.exec u after = some t ∧ Goal u) ∨
      ∃ m, I t m ∧ m + acts.countP p ≤ n := by
  induction acts generalizing s n with
  | nil =>
      right
      rw [← Option.some.inj hrun]
      exact ⟨n, hs, Nat.le_refl _⟩
  | cons a as ih =>
      obtain ⟨r, hfirst, hrest⟩ := exec_cons_eq_some.mp hrun
      rcases hstep s a r n halong.head hs hfirst with hgoal | ⟨m, hr, hm⟩
      · left
        exact ⟨[a], as, r, rfl, exec_singleton.mpr hfirst, hrest, hgoal⟩
      · rcases ih hr (halong.tail hfirst) hrest with
          ⟨before, after, u, rfl, hbefore, hafter, hgoal⟩ | ⟨l, ht, hl⟩
        · left
          exact ⟨a :: before, after, u, rfl, exec_cons_eq_some.mpr ⟨r, hfirst, hbefore⟩, hafter,
            hgoal⟩
        · right
          refine ⟨l, ht, ?_⟩
          rw [List.countP_cons]
          omega

/-- **The simulation rule.** If every step of `M` from a state of the invariant is matched by the
abstract actions it shows, a run of `M` is matched by the run of `N` on everything it shows. -/
theorem exec_simulates {N : Machine τ β} {I : σ → Prop} {abs : σ → τ} {obs : σ → α → List β}
    (hinv : ∀ s a t, I s → M.step s a = some t → I t)
    (hsim : ∀ s a t, I s → M.step s a = some t → N.exec (abs s) (obs s a) = some (abs t))
    {s t : σ} {acts : List α} (hs : I s) (hrun : M.exec s acts = some t) :
    N.exec (abs s) (M.trace obs s acts) = some (abs t) := by
  induction acts generalizing s with
  | nil => simp [Option.some.inj hrun]
  | cons a as ih =>
      obtain ⟨r, hfirst, hrest⟩ := exec_cons_eq_some.mp hrun
      rw [trace_cons hfirst]
      exact exec_append_eq_some.mpr ⟨abs r, hsim s a r hs hfirst, ih (hinv s a r hs hfirst) hrest⟩

/-- **The forward simulation.** If related states stay related when `M` makes a step and `N` the
actions the step shows, every run of `M` is matched by a run of `N` on everything it shows. -/
theorem exec_matched {N : Machine τ β} {R : σ → τ → Prop} {obs : σ → α → List β}
    (hsim : ∀ s a t u, M.Reachable s → R s u → M.step s a = some t →
      ∃ v, N.exec u (obs s a) = some v ∧ R t v)
    {s t : σ} {u : τ} {acts : List α} (hreach : M.Reachable s) (hs : R s u)
    (hrun : M.exec s acts = some t) :
    ∃ v, N.exec u (M.trace obs s acts) = some v ∧ R t v := by
  induction acts generalizing s u with
  | nil =>
      rw [← Option.some.inj hrun]
      exact ⟨u, rfl, hs⟩
  | cons a as ih =>
      obtain ⟨r, hfirst, hrest⟩ := exec_cons_eq_some.mp hrun
      obtain ⟨mid, hmid, hr⟩ := hsim s a r u hreach hs hfirst
      obtain ⟨v, hv, ht⟩ := ih (hreach.step hfirst) hr hrest
      rw [trace_cons hfirst]
      exact ⟨v, exec_append_eq_some.mpr ⟨mid, hmid, hv⟩, ht⟩

/-- A component of a machine moves only as a machine of its own does. -/
theorem Reachable.project {N : Machine τ β} {abs : σ → τ} {obs : σ → α → List β}
    (hinit : ∀ s, M.init s → N.init (abs s))
    (hsim : ∀ s a t, M.step s a = some t → N.exec (abs s) (obs s a) = some (abs t))
    {s : σ} (hs : M.Reachable s) : N.Reachable (abs s) := by
  obtain ⟨s₀, acts, hs₀, hrun⟩ := hs
  exact ⟨abs s₀, M.trace obs s₀ acts, hinit s₀ hs₀,
    exec_simulates (I := fun _ => True) (fun _ _ _ _ _ => trivial)
      (fun s a t _ h => hsim s a t h) trivial hrun⟩

end Machine

end MatrixTransposer.Lib
