import MatrixTransposer.Lib.Machine
import Mathlib.Logic.Function.Basic
import Mathlib.Data.Fintype.EquivFin

/-!
# Workers that copy cells

A pool of workers, each with a list of tasks to perform in order on a common store. A run of the
pool is a schedule: each action names the worker that performs its next task. Whatever the schedule,
the store a pool leaves is what some ordering of the tasks leaves when they are performed by one
worker.

When the tasks copy cells to cells, that ordering is irrelevant under two conditions: no task reads
a cell that any task writes, and tasks that write the same cell read the same cell.
-/

namespace MatrixTransposer.Lib

variable {ι τ σ : Type*}

structure Pool (ι τ σ : Type*) where
  store : σ
  todo : ι → List τ

namespace Pool

variable [DecidableEq ι] (effect : τ → σ → σ)

def step (p : Pool ι τ σ) (worker : ι) : Option (Pool ι τ σ) :=
  match p.todo worker with
  | [] => none
  | task :: rest =>
      some { store := effect task p.store, todo := Function.update p.todo worker rest }

def machine : Machine (Pool ι τ σ) ι where
  init _ := True
  step := step effect

def Joined (p : Pool ι τ σ) : Prop := ∀ worker, p.todo worker = []

variable {effect}

theorem step_eq_some {p q : Pool ι τ σ} {worker : ι} (h : step effect p worker = some q) :
    ∃ task rest, p.todo worker = task :: rest ∧ q.store = effect task p.store ∧
      q.todo = Function.update p.todo worker rest := by
  unfold step at h
  cases htodo : p.todo worker with
  | nil =>
      rw [htodo] at h
      cases h
  | cons task rest =>
      rw [htodo] at h
      cases h
      exact ⟨task, rest, rfl, rfl, rfl⟩

/-- A task taken off a list is in the pool before and is all that is missing after. -/
theorem exists_mem_todo_iff {p q : Pool ι τ σ} {worker : ι} {task : τ} {rest : List τ}
    (htodo : p.todo worker = task :: rest) (hq : q.todo = Function.update p.todo worker rest)
    (c : τ) : (∃ w, c ∈ p.todo w) ↔ c = task ∨ ∃ w, c ∈ q.todo w := by
  rw [hq]
  constructor
  · rintro ⟨w, hmem⟩
    by_cases heq : w = worker
    · subst heq
      rw [htodo] at hmem
      rcases List.mem_cons.mp hmem with hc | hc
      · exact Or.inl hc
      · exact Or.inr ⟨w, by rwa [Function.update_self]⟩
    · exact Or.inr ⟨w, by rwa [Function.update_of_ne heq]⟩
  · rintro (hc | ⟨w, hmem⟩)
    · exact ⟨worker, by rw [htodo, hc]; exact List.mem_cons_self⟩
    · by_cases heq : w = worker
      · subst heq
        rw [Function.update_self] at hmem
        exact ⟨w, by rw [htodo]; exact List.mem_cons_of_mem _ hmem⟩
      · exact ⟨w, by rwa [Function.update_of_ne heq] at hmem⟩

theorem exec_eq_foldl {p q : Pool ι τ σ} {schedule : List ι}
    (hrun : (machine effect).exec p schedule = some q) :
    ∃ performed : List τ, q.store = performed.foldl (fun store task => effect task store) p.store ∧
      ∀ c, (∃ w, c ∈ p.todo w) ↔ c ∈ performed ∨ ∃ w, c ∈ q.todo w := by
  induction schedule generalizing p with
  | nil =>
      have hpq : p = q := Option.some.inj hrun
      subst hpq
      exact ⟨[], rfl, fun c => by simp⟩
  | cons worker schedule ih =>
      obtain ⟨r, hstep, hrest⟩ := Machine.exec_cons_eq_some.mp hrun
      obtain ⟨task, rest, htodo, hstore, hupdate⟩ := step_eq_some hstep
      obtain ⟨performed, hq, htasks⟩ := ih hrest
      refine ⟨task :: performed, by rw [hq, hstore, List.foldl_cons], ?_⟩
      intro c
      rw [exists_mem_todo_iff htodo hupdate, htasks, List.mem_cons, or_assoc]

theorem exists_exec_worker (p : Pool ι τ σ) (worker : ι) :
    ∃ schedule q, (machine effect).exec p schedule = some q ∧
      q.todo = Function.update p.todo worker [] := by
  generalize htodo : p.todo worker = tasks
  induction tasks generalizing p with
  | nil => exact ⟨[], p, rfl, by rw [← htodo, Function.update_eq_self]⟩
  | cons task rest ih =>
      let r : Pool ι τ σ :=
        { store := effect task p.store, todo := Function.update p.todo worker rest }
      have hstep : (machine effect).step p worker = some r := by
        simp only [machine, step, htodo, r]
      obtain ⟨schedule, q, hrun, hq⟩ := ih r (Function.update_self _ _ _)
      refine ⟨worker :: schedule, q, Machine.exec_cons_eq_some.mpr ⟨r, hstep, hrun⟩, ?_⟩
      rw [hq, Function.update_idem]

theorem exists_exec_joined [Finite ι] (p : Pool ι τ σ) :
    ∃ schedule q, (machine effect).exec p schedule = some q ∧ q.Joined := by
  obtain ⟨workers, -, hall⟩ := Finite.exists_univ_list ι
  have hidle : ∀ w, w ∉ workers → p.todo w = [] := fun w hw => absurd (hall w) hw
  clear hall
  induction workers generalizing p with
  | nil => exact ⟨[], p, rfl, fun w => hidle w List.not_mem_nil⟩
  | cons worker workers ih =>
      obtain ⟨first, r, hfirst, hr⟩ : ∃ first r, (machine effect).exec p first = some r ∧
          r.todo = Function.update p.todo worker [] := exists_exec_worker p worker
      have hidle' : ∀ w, w ∉ workers → r.todo w = [] := by
        intro w hw
        rw [hr]
        by_cases heq : w = worker
        · rw [heq, Function.update_self]
        · rw [Function.update_of_ne heq]
          exact hidle w (by simp [heq, hw])
      obtain ⟨second, q, hsecond, hjoined⟩ := ih r hidle'
      exact ⟨first ++ second, q, Machine.exec_append_eq_some.mpr ⟨r, hfirst, hsecond⟩, hjoined⟩

end Pool

/-! ## Copies between cells -/

variable {A V : Type*} [DecidableEq A]

structure Assign (A : Type*) where
  target : A
  source : A

namespace Assign

def run (c : Assign A) (mem : A → V) : A → V := Function.update mem c.target (mem c.source)

/-- No assignment reads a cell that one writes, and a cell's writers agree on what to read. -/
structure Consistent (cells : Set (Assign A)) : Prop where
  source_ne_target : ∀ c ∈ cells, ∀ d ∈ cells, c.source ≠ d.target
  source_eq : ∀ c ∈ cells, ∀ d ∈ cells, c.target = d.target → c.source = d.source

variable {cells : Set (Assign A)} {assigns : List (Assign A)} {mem : A → V}

theorem foldl_of_ne {a : A} (h : ∀ c ∈ assigns, c.target ≠ a) :
    assigns.foldl (fun mem c => c.run mem) mem a = mem a := by
  induction assigns generalizing mem with
  | nil => rfl
  | cons c assigns ih =>
      rw [List.foldl_cons, ih fun d hd => h d (List.mem_cons_of_mem _ hd)]
      exact Function.update_of_ne (h c List.mem_cons_self).symm _ _

/-- A cell that is written ends up with the value its writers read at the start. -/
theorem foldl_of_mem (hcells : Consistent cells) (hsub : ∀ c ∈ assigns, c ∈ cells)
    {c : Assign A} (hc : c ∈ assigns) :
    assigns.foldl (fun mem c => c.run mem) mem c.target = mem c.source := by
  classical
  induction assigns generalizing mem c with
  | nil => cases hc
  | cons d assigns ih =>
      have hsub' : ∀ e ∈ assigns, e ∈ cells := fun e he => hsub e (List.mem_cons_of_mem _ he)
      have hcmem : c ∈ cells := hsub c hc
      have hdmem : d ∈ cells := hsub d List.mem_cons_self
      rw [List.foldl_cons]
      by_cases hlater : ∃ e ∈ assigns, e.target = c.target
      · -- a later assignment to the same cell decides, and it reads what `c` reads
        obtain ⟨e, he, htarget⟩ := hlater
        have hsource := hcells.source_eq e (hsub' e he) c hcmem htarget
        rw [← htarget, ih hsub' he, hsource]
        exact Function.update_of_ne (hcells.source_ne_target c hcmem d hdmem) _ _
      · have hne : ∀ e ∈ assigns, e.target ≠ c.target :=
          fun e he heq => hlater ⟨e, he, heq⟩
        have hcd : c = d := by
          rcases List.mem_cons.mp hc with heq | hmem
          · exact heq
          · exact absurd rfl (hne c hmem)
        subst hcd
        rw [foldl_of_ne hne]
        exact Function.update_self _ _ _

theorem foldl_eq_foldl (hcells : Consistent cells) {left right : List (Assign A)}
    (hleft : ∀ c, c ∈ left ↔ c ∈ cells) (hright : ∀ c, c ∈ right ↔ c ∈ cells) (mem : A → V) :
    left.foldl (fun mem c => c.run mem) mem = right.foldl (fun mem c => c.run mem) mem := by
  funext a
  by_cases hwritten : ∃ c ∈ cells, c.target = a
  · obtain ⟨c, hc, rfl⟩ := hwritten
    rw [foldl_of_mem hcells (fun d hd => (hleft d).mp hd) ((hleft c).mpr hc),
      foldl_of_mem hcells (fun d hd => (hright d).mp hd) ((hright c).mpr hc)]
  · have hne : ∀ c ∈ cells, c.target ≠ a := fun c hc heq => hwritten ⟨c, hc, heq⟩
    rw [foldl_of_ne fun c hc => hne c ((hleft c).mp hc),
      foldl_of_ne fun c hc => hne c ((hright c).mp hc)]

/-! ## A pool while it copies -/

variable [DecidableEq ι] {p q : Pool ι (Assign A) (A → V)}

/-- What is not copied yet is still to be done. -/
structure Underway (cells : Set (Assign A)) (p : Pool ι (Assign A) (A → V)) : Prop where
  within : ∀ worker, ∀ c ∈ p.todo worker, c ∈ cells
  copied : ∀ c ∈ cells, (∃ worker, c ∈ p.todo worker) ∨ p.store c.target = p.store c.source

omit [DecidableEq A] [DecidableEq ι] in
theorem Underway.of_mem_iff (h : ∀ c, (∃ worker, c ∈ p.todo worker) ↔ c ∈ cells) :
    Underway cells p where
  within worker c hc := (h c).mp ⟨worker, hc⟩
  copied c hc := Or.inl ((h c).mpr hc)

omit [DecidableEq A] [DecidableEq ι] in
/-- What others write meanwhile does not matter if it is elsewhere. -/
theorem Underway.of_store (h : Underway cells p) (htodo : q.todo = p.todo)
    (hsource : ∀ c ∈ cells, q.store c.source = p.store c.source)
    (htarget : ∀ c ∈ cells, q.store c.target = p.store c.target) : Underway cells q where
  within := by
    rw [htodo]
    exact h.within
  copied c hc := by
    rw [htodo, hsource c hc, htarget c hc]
    exact h.copied c hc

theorem Underway.step (hcells : Consistent cells) (h : Underway cells p) {worker : ι}
    (hstep : Pool.step Assign.run p worker = some q) : Underway cells q := by
  obtain ⟨task, rest, htodo, hstore, hrest⟩ := Pool.step_eq_some hstep
  have htasks := Pool.exists_mem_todo_iff htodo hrest
  have htask : task ∈ cells := h.within worker task (by rw [htodo]; exact List.mem_cons_self)
  have hsource : ∀ c ∈ cells, q.store c.source = p.store c.source := by
    intro c hc
    rw [hstore]
    exact Function.update_of_ne (hcells.source_ne_target c hc task htask) _ _
  constructor
  · intro w c hc
    obtain ⟨w', hc'⟩ := (htasks c).mpr (Or.inr ⟨w, hc⟩)
    exact h.within w' c hc'
  · intro c hc
    rw [hsource c hc]
    by_cases htarget : c.target = task.target
    · right
      rw [htarget, hcells.source_eq c hc task htask htarget, hstore]
      exact Function.update_self _ _ _
    · have hkept : q.store c.target = p.store c.target := by
        rw [hstore]
        exact Function.update_of_ne htarget _ _
      rw [hkept]
      refine (h.copied c hc).imp_left ?_
      intro hmem
      exact ((htasks c).mp hmem).resolve_left fun heq => htarget (congrArg Assign.target heq)

omit [DecidableEq A] [DecidableEq ι] in
theorem Underway.copied_of_joined (h : Underway cells p) (hjoined : p.Joined) {c : Assign A}
    (hc : c ∈ cells) : p.store c.target = p.store c.source := by
  rcases h.copied c hc with ⟨worker, hmem⟩ | hcopied
  · rw [hjoined worker] at hmem
    cases hmem
  · exact hcopied

end Assign

end MatrixTransposer.Lib
