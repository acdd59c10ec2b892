import MatrixTransposer.FutexSignaller

/-!
# No wake-up is lost

The word counts the signals that have been raised and not yet consumed, so it is a bit. A thread
can fall asleep only while the word is zero, and whoever sets it to one is from then on on its way
to `FUTEX_WAKE`; until that call every sleeper is accounted for by it, and the call leaves none.
-/

namespace MatrixTransposer.FutexSignaller

open Lib

variable {ι : Type*} [DecidableEq ι] {s t : State ι} {a : Action ι}

@[simp] theorem setPc_word (s : State ι) (thread : ι) (pc : ThreadPc) :
    (s.setPc thread pc).word = s.word := rfl

theorem setPc_pc (s : State ι) (thread other : ι) (pc : ThreadPc) :
    (s.setPc thread pc).pc other = if other = thread then pc else s.pc other := by
  by_cases heq : other = thread
  · subst heq
    simp [State.setPc]
  · simp [State.setPc, heq]

/-- The steps, one constructor each, with what the step has seen. -/
inductive Move (s : State ι) : Action ι → State ι → Prop where
  | wait {u : ι} (hpc : s.pc u = .idle) : Move s (.wait u) (s.setPc u .waitExchange)
  | wake {u : ι} (hpc : s.pc u = .idle) : Move s (.wake u) (s.setPc u .wakeExchange)
  | consume {u : ι} (hpc : s.pc u = .waitExchange) (hword : s.word = 1) :
      Move s (.run u) ({ s with word := 0 }.setPc u .idle)
  | retry {u : ι} (hpc : s.pc u = .waitExchange) (hword : s.word ≠ 1) :
      Move s (.run u) (s.setPc u .waitCall)
  | sleep {u : ι} (hpc : s.pc u = .waitCall) (hword : s.word = 0) :
      Move s (.run u) (s.setPc u .asleep)
  | again {u : ι} (hpc : s.pc u = .waitCall) (hword : s.word ≠ 0) :
      Move s (.run u) (s.setPc u .waitExchange)
  | raise {u : ι} (hpc : s.pc u = .wakeExchange) (hword : s.word = 0) :
      Move s (.run u) ({ s with word := 1 }.setPc u .wakeCall)
  | skip {u : ι} (hpc : s.pc u = .wakeExchange) (hword : s.word ≠ 0) :
      Move s (.run u) (s.setPc u .idle)
  | wakeAll {u : ι} (hpc : s.pc u = .wakeCall) :
      Move s (.run u) ({ s with pc := awaken ∘ s.pc }.setPc u .idle)
  | interrupt {u : ι} (hpc : s.pc u = .asleep) : Move s (.interrupt u) (s.setPc u .waitExchange)

theorem move_of_step (h : step s a = some t) : Move s a t := by
  cases a with
  | wait u =>
      obtain ⟨hpc, heq⟩ := Option.ite_none_right_eq_some.mp h
      exact Option.some.inj heq ▸ .wait hpc
  | wake u =>
      obtain ⟨hpc, heq⟩ := Option.ite_none_right_eq_some.mp h
      exact Option.some.inj heq ▸ .wake hpc
  | interrupt u =>
      obtain ⟨hpc, heq⟩ := Option.ite_none_right_eq_some.mp h
      exact Option.some.inj heq ▸ .interrupt hpc
  | run u =>
      cases hpc : s.pc u with
      | idle => simp [step, hpc] at h
      | asleep => simp [step, hpc] at h
      | waitExchange =>
          by_cases hword : s.word = 1
          · simp only [step, hpc, hword, if_true, Option.some.injEq] at h
            exact h ▸ .consume hpc hword
          · simp only [step, hpc, hword, if_false, Option.some.injEq] at h
            exact h ▸ .retry hpc hword
      | waitCall =>
          by_cases hword : s.word = 0
          · simp only [step, hpc, hword, if_true, Option.some.injEq] at h
            exact h ▸ .sleep hpc hword
          · simp only [step, hpc, hword, if_false, Option.some.injEq] at h
            exact h ▸ .again hpc hword
      | wakeExchange =>
          by_cases hword : s.word = 0
          · simp only [step, hpc, hword, if_true, Option.some.injEq] at h
            exact h ▸ .raise hpc hword
          · simp only [step, hpc, hword, if_false, Option.some.injEq] at h
            exact h ▸ .skip hpc hword
      | wakeCall =>
          simp only [step, hpc, Option.some.injEq] at h
          exact h ▸ .wakeAll hpc

structure Inv (s : State ι) : Prop where
  bit : s.word = 0 ∨ s.word = 1
  /-- A sleeper whose signal is up has a waker on its way. -/
  awaited : ∀ u, s.pc u = .asleep → s.word = 1 → ∃ waker, s.pc waker = .wakeCall

omit [DecidableEq ι] in
theorem inv_initial : Inv (initial : State ι) :=
  ⟨Or.inl rfl, fun _ hpc => by cases hpc⟩

/-- A step of a thread that neither sleeps nor was about to wake the others changes nothing that
matters. -/
theorem Inv.setPc (hs : Inv s) {thread : ι} {pc : ThreadPc} (hold : s.pc thread ≠ .wakeCall)
    (hnew : pc ≠ .asleep) : Inv (s.setPc thread pc) := by
  refine ⟨hs.bit, ?_⟩
  intro u hsleep hword
  rw [setPc_pc] at hsleep
  by_cases heq : u = thread
  · rw [if_pos heq] at hsleep
    exact absurd hsleep hnew
  · rw [if_neg heq] at hsleep
    obtain ⟨waker, hwaker⟩ := hs.awaited u hsleep hword
    have hne : waker ≠ thread := by
      intro hwt
      exact hold (hwt ▸ hwaker)
    exact ⟨waker, by rw [setPc_pc, if_neg hne, hwaker]⟩

theorem inv_step (hs : Inv s) (h : step s a = some t) : Inv t := by
  cases move_of_step h with
  | wait hpc | wake hpc | interrupt hpc | retry hpc | again hpc | skip hpc =>
      exact hs.setPc (by simp [hpc]) (by simp)
  | consume hpc hword =>
      refine ⟨Or.inl rfl, ?_⟩
      intro u _ hone
      cases hone
  | sleep hpc hword =>
      refine ⟨hs.bit, ?_⟩
      intro u _ hone
      rw [setPc_word, hword] at hone
      cases hone
  | raise hpc hword =>
      refine ⟨Or.inr rfl, ?_⟩
      intro u _ _
      exact ⟨_, by rw [setPc_pc, if_pos rfl]⟩
  | wakeAll hpc =>
      refine ⟨hs.bit, ?_⟩
      intro u hsleep _
      -- nobody sleeps any more
      rw [setPc_pc] at hsleep
      split at hsleep
      · cases hsleep
      · simp only [Function.comp_apply] at hsleep
        cases hu : s.pc u <;> simp [hu, awaken] at hsleep

theorem inv_of_exec {acts : List (Action ι)} (hrun : (machine ι).exec initial acts = some s) :
    Inv s :=
  Machine.exec_preserves (I := Inv) (fun _ _ _ hinv hstep => inv_step hinv hstep) inv_initial hrun

/-! ### The loops of the two calls -/

/-- A thread in `Wait` takes the signal and returns, or goes round its loop. -/
theorem wait_run_cases {u : ι}
    (hpc : s.pc u = .waitExchange ∨ s.pc u = .waitCall ∨ s.pc u = .asleep)
    (h : step s (.run u) = some t) :
    (s.word = 1 ∧ t = { s with word := 0 }.setPc u .idle ∧ signals s (.run u) = [.consumed]) ∨
      ∃ pc, t = s.setPc u pc ∧ signals s (.run u) = [] ∧
        (s.pc u = .waitExchange ∧ s.word ≠ 1 ∧ pc = .waitCall ∨
          s.pc u = .waitCall ∧ s.word = 0 ∧ pc = .asleep ∨
          s.pc u = .waitCall ∧ s.word ≠ 0 ∧ pc = .waitExchange) := by
  cases move_of_step h with
  | consume hthread hword => exact Or.inl ⟨hword, rfl, by simp [signals, hthread, hword]⟩
  | retry hthread hword =>
      exact Or.inr ⟨_, rfl, by simp [signals, hthread, hword], Or.inl ⟨hthread, hword, rfl⟩⟩
  | sleep hthread hword =>
      exact Or.inr ⟨_, rfl, by simp [signals, hthread], Or.inr (Or.inl ⟨hthread, hword, rfl⟩)⟩
  | again hthread hword =>
      exact Or.inr ⟨_, rfl, by simp [signals, hthread], Or.inr (Or.inr ⟨hthread, hword, rfl⟩)⟩
  | raise hthread | skip hthread | wakeAll hthread =>
      rw [hthread] at hpc
      simp at hpc

/-- A thread in `Wake` raises the signal, finds it up and returns, or wakes the others. -/
theorem wake_run_cases {u : ι} (hpc : s.pc u = .wakeExchange ∨ s.pc u = .wakeCall)
    (h : step s (.run u) = some t) :
    (s.pc u = .wakeExchange ∧ s.word = 0 ∧ t = { s with word := 1 }.setPc u .wakeCall ∧
        signals s (.run u) = [.raised]) ∨
      (s.pc u = .wakeExchange ∧ s.word ≠ 0 ∧ t = s.setPc u .idle ∧ signals s (.run u) = []) ∨
      (s.pc u = .wakeCall ∧ t = { s with pc := awaken ∘ s.pc }.setPc u .idle ∧
        signals s (.run u) = []) := by
  cases move_of_step h with
  | raise hthread hword =>
      exact Or.inl ⟨hthread, hword, rfl, by simp [signals, hthread, hword]⟩
  | skip hthread hword =>
      exact Or.inr (Or.inl ⟨hthread, hword, rfl, by simp [signals, hthread, hword]⟩)
  | wakeAll hthread => exact Or.inr (Or.inr ⟨hthread, rfl, by simp [signals, hthread]⟩)
  | consume hthread | retry hthread | sleep hthread | again hthread =>
      rw [hthread] at hpc
      simp at hpc

theorem word_step (h : step s a = some t) :
    (t.word.toNat : Int) = s.word.toNat +
      ((signals s a).count .raised - (signals s a).count .consumed) := by
  cases move_of_step h with
  | wait hpc | wake hpc | interrupt hpc => simp [signals]
  | consume hpc hword => simp [signals, hpc, hword]
  | raise hpc hword => simp [signals, hpc, hword]
  | retry hpc hword => simp [signals, hpc, hword]
  | skip hpc hword => simp [signals, hpc, hword]
  | sleep hpc hword => simp [signals, hpc]
  | again hpc hword => simp [signals, hpc]
  | wakeAll hpc => simp [signals, hpc]

theorem word_run {acts : List (Action ι)} (hrun : (machine ι).exec s acts = some t) :
    (t.word.toNat : Int) = s.word.toNat +
      (((machine ι).trace signals s acts).count .raised -
        ((machine ι).trace signals s acts).count .consumed) := by
  induction acts generalizing s with
  | nil => simp [Option.some.inj hrun]
  | cons a acts ih =>
      obtain ⟨r, hstep, hrest⟩ := Machine.exec_cons_eq_some.mp hrun
      rw [Machine.trace_cons hstep, List.count_append, List.count_append, ih hrest,
        word_step hstep]
      omega

end MatrixTransposer.FutexSignaller
