import MatrixTransposer.Lib.Machine
import Mathlib.LinearAlgebra.Matrix.Defs

/-!
# What the transposer is for

Clients put up matrices and ask for the transposes, each client for one at a time. Here a request is
served in a single step; there is no memory, no queue and no thread. The program is compared with
this.
-/

namespace MatrixTransposer.TranspositionService

open Lib
open scoped Matrix

variable {ι β α : Type*} {rows cols : ι → Type*}

inductive Status (β : Type*) where
  | idle
  | requested (buffer : β)
  | served (buffer : β)
  deriving DecidableEq

variable (β α rows cols) in
structure State where
  status : ι → Status β
  matrix : (client : ι) → β → Matrix (rows client) (cols client) α
  result : (client : ι) → β → Matrix (cols client) (rows client) α
  /-- The requests that have been answered since the client put up its matrices. -/
  answered : ι → Set β

variable (β α rows cols) in
inductive Action where
  | load (client : ι) (matrix : β → Matrix (rows client) (cols client) α)
      (result : β → Matrix (cols client) (rows client) α)
  | request (client : ι) (buffer : β)
  | serve (client : ι) (buffer : β)
  | answer (client : ι) (buffer : β)

section Step

variable [DecidableEq ι]

def State.setStatus (s : State β α rows cols) (client : ι) (status : Status β) :
    State β α rows cols :=
  { s with status := Function.update s.status client status }

def State.setAnswered (s : State β α rows cols) (client : ι) (answered : Set β) :
    State β α rows cols :=
  { s with answered := Function.update s.answered client answered }

variable [DecidableEq β]

/-- The result of the request is the transposed matrix. -/
def State.transpose (s : State β α rows cols) (client : ι) (buffer : β) : State β α rows cols :=
  { s with
    result := Function.update s.result client
      (Function.update (s.result client) buffer (s.matrix client buffer)ᵀ) }

def step (s : State β α rows cols) : Action β α rows cols → Option (State β α rows cols)
  | .load client matrix result =>
      if s.status client = .idle then
        some { s.setAnswered client ∅ with
          matrix := Function.update s.matrix client matrix
          result := Function.update s.result client result }
      else none
  | .request client buffer =>
      if s.status client = .idle then some (s.setStatus client (.requested buffer)) else none
  | .serve client buffer =>
      if s.status client = .requested buffer then
        some ((s.transpose client buffer).setStatus client (.served buffer))
      else none
  | .answer client buffer =>
      if s.status client = .served buffer then
        some ((s.setStatus client .idle).setAnswered client (insert buffer (s.answered client)))
      else none

variable (β α rows cols) in
def machine : Machine (State β α rows cols) (Action β α rows cols) where
  init s := ∀ client, s.status client = .idle ∧ s.answered client = ∅
  step := step

end Step

/-! ## The results of the service -/

/-- The request has been served, and perhaps answered. -/
def State.Done (s : State β α rows cols) (client : ι) (buffer : β) : Prop :=
  buffer ∈ s.answered client ∨ s.status client = .served buffer

def State.Correct (s : State β α rows cols) : Prop :=
  ∀ client buffer, s.Done client buffer → s.result client buffer = (s.matrix client buffer)ᵀ

variable [DecidableEq ι] {s t : State β α rows cols}

@[simp] theorem setStatus_status_self (s : State β α rows cols) (client : ι) (status : Status β) :
    (s.setStatus client status).status client = status :=
  Function.update_self _ _ _

theorem setStatus_status_of_ne (s : State β α rows cols) {client other : ι} (h : other ≠ client)
    (status : Status β) : (s.setStatus client status).status other = s.status other :=
  Function.update_of_ne h _ _

@[simp] theorem setAnswered_answered_self (s : State β α rows cols) (client : ι)
    (answered : Set β) : (s.setAnswered client answered).answered client = answered :=
  Function.update_self _ _ _

theorem setAnswered_answered_of_ne (s : State β α rows cols) {client other : ι}
    (h : other ≠ client) (answered : Set β) :
    (s.setAnswered client answered).answered other = s.answered other :=
  Function.update_of_ne h _ _

variable [DecidableEq β]

@[simp] theorem transpose_result_self (s : State β α rows cols) (client : ι) (buffer : β) :
    (s.transpose client buffer).result client buffer = (s.matrix client buffer)ᵀ := by
  simp [State.transpose]

theorem transpose_result_of_ne (s : State β α rows cols) {client other : ι} {buffer b : β}
    (h : ¬ (other = client ∧ b = buffer)) :
    (s.transpose client buffer).result other b = s.result other b := by
  by_cases hclient : other = client
  · subst hclient
    have hbuffer : b ≠ buffer := fun heq => h ⟨rfl, heq⟩
    simp [State.transpose, hbuffer]
  · simp [State.transpose, hclient]

theorem correct_step {a : Action β α rows cols} (h : s.Correct) (hstep : step s a = some t) :
    t.Correct := by
  intro other b hdone
  cases a with
  | load client matrix result =>
      obtain ⟨hidle, heq⟩ := Option.ite_none_right_eq_some.mp hstep
      cases heq
      by_cases hclient : other = client
      · subst hclient
        rcases hdone with hanswered | hserved
        · simp at hanswered
        · cases hidle.symm.trans hserved
      · have hdone' : s.Done other b := by
          refine hdone.imp ?_ id
          intro hanswered
          rwa [setAnswered_answered_of_ne s hclient] at hanswered
        simpa [Function.update_of_ne hclient] using h other b hdone'
  | request client buffer =>
      obtain ⟨-, heq⟩ := Option.ite_none_right_eq_some.mp hstep
      cases heq
      refine h other b (hdone.imp id ?_)
      intro hserved
      by_cases hclient : other = client
      · subst hclient
        simp at hserved
      · rwa [setStatus_status_of_ne s hclient] at hserved
  | serve client buffer =>
      obtain ⟨-, heq⟩ := Option.ite_none_right_eq_some.mp hstep
      cases heq
      by_cases hrequest : other = client ∧ b = buffer
      · obtain ⟨rfl, rfl⟩ := hrequest
        exact transpose_result_self s other b
      · refine (transpose_result_of_ne s hrequest).trans (h other b (hdone.imp id ?_))
        intro hserved
        by_cases hclient : other = client
        · subst hclient
          rw [setStatus_status_self] at hserved
          cases hserved
          exact absurd ⟨rfl, rfl⟩ hrequest
        · rwa [setStatus_status_of_ne _ hclient] at hserved
  | answer client buffer =>
      obtain ⟨hserved, heq⟩ := Option.ite_none_right_eq_some.mp hstep
      cases heq
      apply h other b
      by_cases hclient : other = client
      · subst hclient
        rcases hdone with hanswered | hstatus
        · rw [setAnswered_answered_self] at hanswered
          rcases hanswered with rfl | hbefore
          · exact Or.inr hserved
          · exact Or.inl hbefore
        · have hidle : (s.setStatus other .idle).status other = .served b := hstatus
          simp at hidle
      · refine hdone.imp ?_ ?_
        · intro hanswered
          rwa [setAnswered_answered_of_ne _ hclient] at hanswered
        · intro hstatus
          exact (setStatus_status_of_ne s hclient .idle).symm.trans hstatus

/-- Whatever has been answered is the transposed matrix. -/
theorem correct_of_reachable (h : (machine β α rows cols).Reachable s) : s.Correct := by
  apply Machine.Reachable.invariant ?_ (fun _ _ _ hs hstep => correct_step hs hstep) h
  rintro s hinit client buffer (hanswered | hserved)
  · rw [(hinit client).2] at hanswered
    exact hanswered.elim
  · rw [(hinit client).1] at hserved
    cases hserved

end MatrixTransposer.TranspositionService
