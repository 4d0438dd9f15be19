import ReluMilp.Milp.Feasible
import ReluMilp.Milp.Workspace
import Mathlib.Algebra.Order.Ring.Rat

/-!
# What is relied on of a solver

* `Solver.Sound` — what counts as the optimum of a model is a bound;
* `Solver.Grounded`, `Solver.Total` — what is optimal is feasible, and every solve ends;
* `Model.Best` — a feasible assignment with the best objective;
* `Outcome.Exact`, `Solver.Exact` — a solver that always ends, with a best assignment if there is one;
* `Solver.ideal` — such a solver, which searches nothing; `exact_ideal`, `Solver.Exact.sound`;
* `Solver.unless` — a solver that some solves stop early;
* `Solver.ExactUnless` — a solver that is exact as far as its time limit lets it.
-/

namespace ReluMilp

section

variable {α : Type} {m : Model α} {o : Outcome α}

theorem optimum?_of_optimal (h : o.status = .optimal) :
    m.optimum? o = some (if m.isMixed then o.bound else o.value) := by
  unfold Model.optimum? Outcome.optimum?
  rw [h]
  rfl

theorem optimum?_of_ne_optimal (h : o.status ≠ .optimal) : m.optimum? o = none := by
  have hnone : o.optimum? = none := by
    unfold Outcome.optimum?
    split
    · contradiction
    · rfl
  unfold Model.optimum?
  rw [hnone]
  rfl

theorem optimal_of_optimum? {a : α} (h : a ∈ m.optimum? o) : o.status = .optimal := by
  by_contra hnot
  rw [optimum?_of_ne_optimal hnot] at h
  cases h

/-- The bound of a best point is its value. -/
theorem optimum?_best (m : Model α) (a : α) (x : Option (Assignment α)) :
    m.optimum? ⟨.optimal, a, a, x⟩ = some a := congrArg some (ite_self a)

end

/-- With an optimal status, what counts as the optimum bounds the objective over all feasible assignments. Any
other status says nothing. -/
def Solver.Sound (solver : Solver Rat) : Prop :=
  ∀ k m o, solver k m = .ok o → ∀ a ∈ m.optimum? o,
    ∀ x, m.Feasible x → m.objective.AtLeastAsGood a (m.objective.value x)

/-- With an optimal status there is a feasible assignment. -/
def Solver.Grounded (solver : Solver Rat) : Prop :=
  ∀ k m o, solver k m = .ok o → o.status = .optimal → ∃ x, m.Feasible x

/-- A solver that ends with some status on every model. -/
def Solver.Total (solver : Solver Rat) : Prop := ∀ k m, ∃ o, solver k m = .ok o

/-- A feasible assignment whose objective is at least as good as any other. -/
def Model.Best (m : Model Rat) (x : Assignment Rat) : Prop :=
  m.Feasible x ∧ ∀ y, m.Feasible y → m.objective.AtLeastAsGood (m.objective.value x) (m.objective.value y)

/-- How an exact solve without limits ends. -/
inductive Outcome.Exact (m : Model Rat) : Outcome Rat → Prop
  | best {x : Assignment Rat} : m.Best x →
      Exact m ⟨.optimal, m.objective.value x, m.objective.value x, some x⟩
  | infeasible {bound value : Rat} : (∀ x, ¬m.Feasible x) → Exact m ⟨.infeasible, bound, value, none⟩
  | endless {bound value : Rat} {point : Option (Assignment Rat)} {x : Assignment Rat} :
      m.Feasible x → (∀ y, ¬m.Best y) → Exact m ⟨.unbounded, bound, value, point⟩

/-- A solver that solves every model exactly, without limits. -/
def Solver.Exact (solver : Solver Rat) : Prop := ∀ k m, ∃ o, solver k m = .ok o ∧ o.Exact m

open Classical in
/-- The outcome of an exact solve. -/
noncomputable def Model.exactOutcome (m : Model Rat) : Outcome Rat :=
  if h : ∃ x, m.Best x then
    ⟨.optimal, m.objective.value h.choose, m.objective.value h.choose, some h.choose⟩
  else if ∃ x, m.Feasible x then ⟨.unbounded, 0, 0, none⟩
  else ⟨.infeasible, 0, 0, none⟩

/-- A solver that knows the best assignment. -/
noncomputable def Solver.ideal : Solver Rat := fun _ m => .ok m.exactOutcome

theorem exact_exactOutcome (m : Model Rat) : m.exactOutcome.Exact m := by
  unfold Model.exactOutcome
  by_cases hbest : ∃ x, m.Best x
  · rw [dif_pos hbest]
    exact .best hbest.choose_spec
  · rw [dif_neg hbest]
    by_cases hfeas : ∃ x, m.Feasible x
    · rw [if_pos hfeas]
      obtain ⟨x, hx⟩ := hfeas
      exact .endless hx fun y hy => hbest ⟨y, hy⟩
    · rw [if_neg hfeas]
      exact .infeasible fun x hx => hfeas ⟨x, hx⟩

theorem exact_ideal : Solver.ideal.Exact := fun _ m => ⟨m.exactOutcome, rfl, exact_exactOutcome m⟩

theorem Solver.Exact.sound {solver : Solver Rat} (h : solver.Exact) : solver.Sound := by
  intro k m o ho a ha x hx
  obtain ⟨o', ho', hexact⟩ := h k m
  rw [ho] at ho'
  cases ho'
  cases hexact with
  | best hbest =>
    rw [optimum?_best] at ha
    cases ha
    exact hbest.2 x hx
  | infeasible _ => cases ha
  | endless _ _ => cases ha

theorem Solver.Exact.grounded {solver : Solver Rat} (h : solver.Exact) : solver.Grounded := by
  intro k m o ho hopt
  obtain ⟨o', ho', hexact⟩ := h k m
  rw [ho] at ho'
  cases ho'
  cases hexact with
  | best hbest => exact ⟨_, hbest.1⟩
  | infeasible _ => cases hopt
  | endless _ _ => cases hopt

theorem Solver.Exact.total {solver : Solver Rat} (h : solver.Exact) : solver.Total :=
  fun k m => (h k m).imp fun _ ho => ho.1

/-! ### Solvers that stop early -/

/-- A solver that stops at its time limit on some attempts and models. -/
def Solver.unless (stops : Nat → Model Rat → Bool) (solver : Solver Rat) : Solver Rat := fun k m =>
  if stops k m then .ok ⟨.timeLimit, 0, 0, none⟩ else solver k m

section Unless

variable {stops : Nat → Model Rat → Bool} {solver : Solver Rat}

/-- What is optimal was not stopped. -/
theorem unless_optimal {k : Nat} {m : Model Rat} {o : Outcome Rat} (h : solver.unless stops k m = .ok o)
    (hopt : o.status = .optimal) : solver k m = .ok o := by
  unfold Solver.unless at h
  split at h
  · cases h
    cases hopt
  · exact h

theorem Solver.Sound.unless (h : solver.Sound) : (solver.unless stops).Sound :=
  fun k m o ho a ha => h k m o (unless_optimal ho (optimal_of_optimum? ha)) a ha

theorem Solver.Grounded.unless (h : solver.Grounded) : (solver.unless stops).Grounded :=
  fun k m o ho hopt => h k m o (unless_optimal ho hopt) hopt

theorem Solver.Total.unless (h : solver.Total) : (solver.unless stops).Total := by
  intro k m
  unfold Solver.unless
  split
  · exact ⟨_, rfl⟩
  · exact h k m

end Unless

/-! ### Solvers with a time limit -/

/-- A model without regard to its parameters. -/
def Model.problem (m : Model Rat) : Model Rat := { m with parameters := .default }

/-- A solver that is exact unless the time limit in force stops it, which depends on the limit and on the
problem alone. -/
def Solver.ExactUnless (stops : Float → Model Rat → Bool) (solver : Solver Rat) : Prop :=
  ∀ k m, ∃ o, solver k m = .ok o ∧
    (stops m.parameters.timeLimit m.problem = true → o.status = .timeLimit) ∧
    (stops m.parameters.timeLimit m.problem = false → o.Exact m)

theorem Solver.ExactUnless.total {stops : Float → Model Rat → Bool} {solver : Solver Rat}
    (h : solver.ExactUnless stops) : solver.Total :=
  fun k m => (h k m).imp fun _ ho => ho.1

theorem Solver.Exact.unless {solver : Solver Rat} (h : solver.Exact) (stops : Float → Model Rat → Bool) :
    (solver.unless fun _ m => stops m.parameters.timeLimit m.problem).ExactUnless stops := by
  intro k m
  by_cases hstop : stops m.parameters.timeLimit m.problem = true
  · refine ⟨⟨.timeLimit, 0, 0, none⟩, if_pos hstop, fun _ => rfl, fun hnot => ?_⟩
    rw [hstop] at hnot
    cases hnot
  · obtain ⟨o, ho, hexact⟩ := h k m
    exact ⟨o, (if_neg hstop).trans ho, fun ht => absurd ht hstop, fun _ => hexact⟩

theorem Objective.AtLeastAsGood.antisymm {g : Objective Rat} {a b : Rat} (h : g.AtLeastAsGood a b)
    (h' : g.AtLeastAsGood b a) : a = b := by
  unfold AtLeastAsGood at h h'
  split at h
  · rename_i hmax
    rw [if_pos hmax] at h'
    exact le_antisymm h' h
  · rename_i hmin
    rw [if_neg hmin] at h'
    exact le_antisymm h h'

/-- Exact outcomes have the same optimum where the same is feasible and optimised, whatever the rows. -/
theorem Outcome.Exact.optimum?_congr {m m' : Model Rat} {o o' : Outcome Rat} (h : o.Exact m)
    (h' : o'.Exact m') (hfeas : ∀ x, m.Feasible x ↔ m'.Feasible x) (hobj : m.objective = m'.objective) :
    m.optimum? o = m'.optimum? o' := by
  have hbest : ∀ x, m.Best x ↔ m'.Best x := by
    intro x
    unfold Model.Best
    rw [hobj]
    exact and_congr (hfeas x) (forall_congr' fun y => imp_congr_left (hfeas y))
  cases h with
  | best hx =>
    have hx' := (hbest _).1 hx
    cases h' with
    | best hy =>
      rw [optimum?_best, optimum?_best, hobj]
      refine congrArg some ?_
      exact (hx'.2 _ hy.1).antisymm (hy.2 _ hx'.1)
    | infeasible hnone => exact absurd hx'.1 (hnone _)
    | endless _ hnone => exact absurd hx' (hnone _)
  | infeasible hnone =>
    cases h' with
    | best hy => exact absurd ((hbest _).2 hy).1 (hnone _)
    | infeasible _ => rfl
    | endless _ _ => rfl
  | endless _ hnone =>
    cases h' with
    | best hy => exact absurd ((hbest _).2 hy) (hnone _)
    | infeasible _ => rfl
    | endless _ _ => rfl

/-- Exact outcomes on one problem have the same optimum. -/
theorem Outcome.Exact.optimum?_eq {m m' : Model Rat} {o o' : Outcome Rat} (h : o.Exact m)
    (h' : o'.Exact m') (hm : m.problem = m'.problem) : m.optimum? o = m'.optimum? o' := by
  refine h.optimum?_congr h' (fun x => ?_) ?_
  · show m.problem.Feasible x ↔ m'.problem.Feasible x
    rw [hm]
  · show m.problem.objective = m'.problem.objective
    rw [hm]

end ReluMilp
