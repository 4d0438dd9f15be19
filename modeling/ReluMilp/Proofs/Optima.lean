import ReluMilp.Formulation.Tightening
import ReluMilp.Proofs.Loosening
import ReluMilp.Proofs.Solvers

/-!
# What tightening does to a model, and what it gives

* `Optima.Reached`, `Optima.ReachedAt` — optima that a solver gave for the affine value of a neuron, and at
  which attempts;
* `Model.Loosens` — a model whose parameters and objective may differ and which may be relaxed;
* `Model.subject`, `Jobs.parameters` — what the problems of a layer are about, and under which parameters
  they are solved; `layerOptima_reachedAt`, `layerOptima_reached`;
* `tightenLayer_eq_ok` — a layer is tightened with optima that were reached on models that loosen the one
  at hand, which is left as it was;
* `value_neuron`, `Optima.From.bounds` — what is optimised for a neuron, and that optima which a sound
  solver gave bound it;
* `improve_replacedAt`, `improve_within`, `improve_has` — what the better of known bounds and of optima
  is.
-/

namespace ReluMilp

open Scalar

/-! ### Actions on a list -/

section

variable {α : Type}

/-- An action on every neuron, which keeps an invariant and takes two attempts each time. -/
theorem eachNeuron_eq_ok {β : Type} {act : Neuron α → Action α β} {P : Nat → Neuron α → β → Prop}
    {I : Model α → Prop}
    (step : ∀ n w b w', I w.model → act n w = .ok b w' →
      I w'.model ∧ w'.attempts = w.attempts + 2 ∧ P w.attempts n b)
    {ns : List (Neuron α)} {bs : List β} {w w' : Workspace α} (hw : I w.model)
    (h : eachNeuron act (ns.map .ok) w = .ok bs w') :
    I w'.model ∧ w'.attempts = w.attempts + 2 * ns.length ∧ bs.length = ns.length ∧
      ∀ (j : Nat) n b, ns[j]? = some n → bs[j]? = some b → P (w.attempts + 2 * j) n b := by
  induction ns generalizing w bs with
  | nil =>
    obtain ⟨rfl, rfl⟩ := Action.pure_eq_ok.1 h
    refine ⟨hw, rfl, rfl, fun j n b hn => ?_⟩
    simp at hn
  | cons n ns ih =>
    obtain ⟨b, w₁, hact, h⟩ := Action.bind_eq_ok.1 h
    obtain ⟨bs', w₂, hrest, h⟩ := Action.bind_eq_ok.1 h
    obtain ⟨rfl, rfl⟩ := Action.pure_eq_ok.1 h
    obtain ⟨hw₁, hcount, hb⟩ := step n w b w₁ hw hact
    obtain ⟨hw₂, hcount', hlen, hbs⟩ := ih hw₁ hrest
    refine ⟨hw₂, by simp only [List.length_cons]; omega, by simp [hlen], fun j n' b' hn hb' => ?_⟩
    cases j with
    | zero =>
      simp only [List.getElem?_cons_zero, Option.some.injEq] at hn hb'
      subst hn hb'
      exact hb
    | succ j =>
      have hj := hbs j n' b' hn hb'
      rw [hcount, show w.attempts + 2 + 2 * j = w.attempts + 2 * (j + 1) by omega] at hj
      exact hj

/-! ### Copies -/

/-- The variables at the positions of variables. -/
theorem atPositions_positions {m : Model α} {ids : List VarId} {ks : List Nat}
    (h : m.positions ids = .ok ks) : m.atPositions ks = ids := by
  have hks := mapM_eq_ok h
  clear h
  unfold Model.atPositions
  induction hks with
  | nil => rfl
  | @cons id k ids ks hk _ ih =>
    cases hf : m.vars.findIdx? (·.id = id) with
    | none =>
      rw [hf] at hk
      cases hk
    | some j =>
      rw [hf] at hk
      cases hk
      obtain ⟨hj, hid, -⟩ := List.findIdx?_eq_some_iff_getElem.1 hf
      have hget : (m.vars[k]?).map (·.id) = some id := by
        rw [List.getElem?_eq_getElem hj, Option.map_some, of_decide_eq_true hid]
      simp only [List.filterMap_cons, hget, ih]

theorem copyUnder_eq_ok {s : Settings} {m m' : Model α} (h : copyUnder s m = .ok m') :
    m' = { m with parameters := (Parameters.default.setAll s.changes).1 } := by
  unfold copyUnder at h
  split at h
  · rename_i p hp
    cases h
    rw [hp]
  · cases h

/-- The second model is the first one, or its relaxation, up to the parameters and the objective. -/
structure Model.Loosens (relax : Bool) (m m' : Model α) : Prop where
  rows : m'.rows = m.rows
  vars : m'.vars = if relax then m.relaxed.vars else m.vars
  nextVar : m'.nextVar = m.nextVar
  nextRow : m'.nextRow = m.nextRow

/-- What a subproblem is about, up to its objective: the model, or its relaxation, under parameters. -/
def Model.subject (m : Model α) (relax : Bool) (p : Parameters) : Model α :=
  { (if relax then m.relaxed else m) with parameters := p }

theorem loosens_subject (m : Model α) (relax : Bool) (p : Parameters) :
    m.Loosens relax (m.subject relax p) := by
  cases relax with
  | false => exact ⟨rfl, rfl, rfl, rfl⟩
  | true => exact ⟨rfl, rfl, rfl, rfl⟩

/-- The models agree but for the objective. -/
def Model.SameButObjective (m m' : Model α) : Prop := m' = { m with objective := m'.objective }

theorem Model.SameButObjective.trans {m m₁ m₂ : Model α} (h : m.SameButObjective m₁)
    (h' : m₁.SameButObjective m₂) : m.SameButObjective m₂ := by
  unfold SameButObjective at *
  rw [h', h]

/-- The objective does not make a model mixed. -/
theorem Model.SameButObjective.optimum?_eq {m m' : Model α} (h : m.SameButObjective m') (r : Outcome α) :
    m'.optimum? r = m.optimum? r := by
  rw [h]
  rfl

theorem setKinds_relaxed (m : Model α) : m.relaxed.setKinds m.kinds = m := by
  have hvars : ∀ vs : List (Variable α),
      List.zipWith (fun v k => { v with kind := k })
        (vs.map fun v => { v with kind := .continuous }) (vs.map (·.kind)) = vs := by
    intro vs
    induction vs with
    | nil => rfl
    | cons v vs ih => rw [List.map_cons, List.map_cons, List.zipWith_cons_cons, ih]
  show { m with vars := _ } = m
  rw [show List.zipWith _ m.relaxed.vars m.kinds = m.vars from hvars m.vars]

/-- What is done after a subproblem that changed nothing but the objective gives the model before it. -/
theorem restored_eq {relax : Bool} {m now : Model α}
    (h : (if relax then m.relaxed else m).SameButObjective now) :
    { (if relax then now.setKinds m.kinds else now) with objective := m.objective } = m := by
  cases relax with
  | false =>
    simp only [Bool.false_eq_true, if_false] at h ⊢
    rw [h]
  | true =>
    simp only [if_true] at h ⊢
    rw [h]
    show { m.relaxed.setKinds m.kinds with objective := m.objective } = m
    rw [setKinds_relaxed]

/-- A subproblem that changes nothing but the objective leaves the model as it was. -/
theorem subproblem_eq_ok {β : Type} {relax : Bool} {act : Action α β} {b : β} {w w' : Workspace α}
    (step : ∀ w v, act w = .ok b v → w.model.SameButObjective v.model)
    (h : subproblem relax act w = .ok b w') :
    w'.model = w.model ∧ ∃ v v', v.model = w.model.subject relax w.model.parameters ∧
      v.attempts = w.attempts ∧ act v = .ok b v' ∧ w'.attempts = v'.attempts := by
  obtain ⟨v, hact, rfl⟩ := Action.bracket_eq_ok h
  refine ⟨restored_eq (step _ _ hact), w.withModel (if relax then w.model.relaxed else w.model), v, ?_,
    rfl, hact, rfl⟩
  cases relax with
  | false => rfl
  | true => rfl

/-! ### Optima -/

variable [Scalar α]

/-- The optimum of an optimal outcome for an objective on a model, missing for any other outcome. -/
def Solver.Gives (solver : Solver α) (m : Model α) (e : Linear α) (maximize : Bool) (o : Option α) :
    Prop :=
  ∃ k m' r, m.setObjective e maximize = .ok m' ∧ solver k m' = .ok r ∧ m'.optimum? r = o

/-- Optima that a solver gave for the affine value of a neuron. -/
structure Optima.Reached (solver : Solver α) (m : Model α) (prev : List VarId) (n : Neuron α)
    (o : Optima α) : Prop where
  width : n.weights.length = prev.length
  upper : solver.Gives m ⟨weightTerms n.weights prev, n.bias⟩ true o.upper
  lower : solver.Gives m ⟨weightTerms n.weights prev, n.bias⟩ false o.lower

/-- An attempt of a solver at an objective on a model ended with an outcome. -/
def Solver.Ends (solver : Solver α) (k : Nat) (m : Model α) (e : Linear α) (maximize : Bool)
    (r : Outcome α) : Prop :=
  ∃ m', m.setObjective e maximize = .ok m' ∧ solver k m' = .ok r

/-- Optima that a solver gave for the affine value of a neuron at two attempts, the upper one first. -/
structure Optima.ReachedAt (solver : Solver α) (m : Model α) (prev : List VarId) (k : Nat) (n : Neuron α)
    (o : Optima α) : Prop where
  width : n.weights.length = prev.length
  upper : ∃ r, solver.Ends k m ⟨weightTerms n.weights prev, n.bias⟩ true r ∧
    m.optimum? r = o.upper
  lower : ∃ r, solver.Ends (k + 1) m ⟨weightTerms n.weights prev, n.bias⟩ false r ∧
    m.optimum? r = o.lower

theorem setObjective_eq_ok {m m' : Model α} {e : Linear α} {maximize : Bool}
    (h : m.setObjective e maximize = .ok m') : m.SameButObjective m' := by
  unfold Model.setObjective at h
  split at h
  · cases h
    rfl
  · cases h

theorem Solver.Ends.gives {solver : Solver α} {k : Nat} {m : Model α} {e : Linear α} {maximize : Bool}
    {r : Outcome α} (h : solver.Ends k m e maximize r) :
    solver.Gives m e maximize (m.optimum? r) := by
  obtain ⟨m', hset, hr⟩ := h
  rw [← (setObjective_eq_ok hset).optimum?_eq]
  exact ⟨k, m', r, hset, hr, rfl⟩

theorem Optima.ReachedAt.reached {solver : Solver α} {m : Model α} {prev : List VarId} {k : Nat}
    {n : Neuron α} {o : Optima α} (h : o.ReachedAt solver m prev k n) : o.Reached solver m prev n := by
  obtain ⟨r, hr, hupper⟩ := h.upper
  obtain ⟨r', hr', hlower⟩ := h.lower
  exact ⟨h.width, hupper ▸ hr.gives, hlower ▸ hr'.gives⟩

theorem aim_eq_ok {e : Linear α} {maximize : Bool} {u : Unit} {w w' : Workspace α}
    (h : aim e maximize w = .ok u w') :
    w.model.setObjective e maximize = .ok w'.model ∧ w'.attempts = w.attempts := by
  obtain ⟨m, hm, rfl⟩ := Action.update_eq_ok.1 h
  cases hs : w.model.setObjective e maximize with
  | error f =>
    rw [hs] at hm
    cases hm
  | ok m' =>
    rw [hs] at hm
    cases hm
    exact ⟨rfl, rfl⟩

omit [Scalar α] in
theorem expression_eq_ok {n : Neuron α} {prev : List VarId} {e : Linear α}
    (h : n.expression prev = .ok e) :
    n.weights.length = prev.length ∧ e = ⟨weightTerms n.weights prev, n.bias⟩ := by
  unfold Neuron.expression at h
  split at h
  · rename_i hlen
    cases h
    exact ⟨hlen, rfl⟩
  · cases h

/-- How an attempt ends does not depend on the objective that the model had before. -/
theorem Solver.Ends.of_same {solver : Solver α} {k : Nat} {m m' : Model α} {e : Linear α}
    {maximize : Bool} {r : Outcome α} (hm : m.SameButObjective m') (h : solver.Ends k m' e maximize r) :
    solver.Ends k m e maximize r := by
  obtain ⟨m₁, hset, hr⟩ := h
  rw [hm] at hset
  exact ⟨m₁, hset, hr⟩

/-- An optimal value is the optimum of an attempt at a model, whatever objective that had before. -/
theorem optimalValue_eq_ok {solver : Solver α} {m : Model α} {e : Linear α} {maximize : Bool} {o : Option α}
    {v v' : Workspace α} (h : optimalValue solver e maximize v = .ok o v') (hm : m.SameButObjective v.model) :
    m.SameButObjective v'.model ∧ v'.attempts = v.attempts + 1 ∧
      ∃ r, solver.Ends v.attempts m e maximize r ∧ m.optimum? r = o := by
  obtain ⟨u, v₁, haim, h⟩ := Action.bind_eq_ok.1 h
  obtain ⟨r, v₂, hsolve, h⟩ := Action.bind_eq_ok.1 h
  obtain ⟨m₂, v₃, hmodel, h⟩ := Action.bind_eq_ok.1 h
  obtain ⟨rfl, rfl⟩ := Action.pure_eq_ok.1 h
  obtain ⟨rfl, rfl⟩ := Action.model_eq_ok.1 hmodel
  obtain ⟨hset, hk⟩ := aim_eq_ok haim
  obtain ⟨hr, hm₂⟩ := Action.solve_eq_ok hsolve
  have hk' := Action.solve_attempts hsolve
  have hsame : m.SameButObjective v₁.model := hm.trans (setObjective_eq_ok hset)
  have hends : solver.Ends v.attempts v.model e maximize r := ⟨_, hset, hk ▸ hr⟩
  rw [hk] at hk'
  rw [hm₂, hsame.optimum?_eq]
  exact ⟨hsame, hk', r, hends.of_same hm, rfl⟩

/-- The problems of a neuron take two attempts. -/
theorem neuronOptima_eq_ok {solver : Solver α} {prev : List VarId} {n : Neuron α} {o : Optima α}
    {w w' : Workspace α} (h : neuronOptima solver prev n w = .ok o w') :
    w.model.SameButObjective w'.model ∧ w'.attempts = w.attempts + 2 ∧
      o.ReachedAt solver w.model prev w.attempts n := by
  obtain ⟨e, w₀, hexp, h⟩ := Action.bind_eq_ok.1 h
  obtain ⟨upper, w₁, hupper, h⟩ := Action.bind_eq_ok.1 h
  obtain ⟨lower, w₂, hlower, h⟩ := Action.bind_eq_ok.1 h
  obtain ⟨rfl, rfl⟩ := Action.pure_eq_ok.1 h
  obtain ⟨he, rfl⟩ := Action.ofExcept_eq_ok.1 hexp
  obtain ⟨hlen, rfl⟩ := expression_eq_ok he
  obtain ⟨hsame, hk, r, hr, hru⟩ := optimalValue_eq_ok hupper rfl
  obtain ⟨hsame', hk', r', hr', hrl⟩ := optimalValue_eq_ok hlower hsame
  rw [hk] at hk' hr'
  exact ⟨hsame', hk', hlen, ⟨r, hr, hru⟩, ⟨r', hr', hrl⟩⟩

/-- A solver gave optima of a neuron on a model that loosens another one. -/
def Optima.From (solver : Solver α) (relax : Bool) (m : Model α) (prev : List VarId) (n : Neuron α)
    (o : Optima α) : Prop :=
  ∃ m', m.Loosens relax m' ∧ o.Reached solver m' prev n

/-- A solver that may have looked at a relaxed model looked at that one as it is. -/
theorem Optima.From.loosened {solver : Solver α} {relax : Bool} {m : Model α} {prev : List VarId}
    {n : Neuron α} {o : Optima α} (h : o.From solver relax m prev n) : o.From solver false (m.loosened relax) prev n := by
  obtain ⟨m', hl, ho⟩ := h
  refine ⟨m', ⟨?_, ?_, ?_, ?_⟩, ho⟩
  · rw [m.loosened_rows]
    exact hl.rows
  · rw [hl.vars]
    cases relax <;> rfl
  · rw [m.loosened_nextVar]
    exact hl.nextVar
  · rw [hl.nextRow]
    cases relax <;> rfl

theorem subproblem_neuronOptima {solver : Solver α} {relax : Bool} {prev : List VarId} {n : Neuron α}
    {o : Optima α} {w w' : Workspace α} (h : subproblem relax (neuronOptima solver prev n) w = .ok o w') :
    w'.attempts = w.attempts + 2 ∧
      o.ReachedAt solver (w.model.subject relax w.model.parameters) prev w.attempts n := by
  obtain ⟨-, v, v', hl, hk, hv, hk'⟩ := subproblem_eq_ok (fun _ _ hact => (neuronOptima_eq_ok hact).1) h
  obtain ⟨-, hcount, ho⟩ := neuronOptima_eq_ok hv
  rw [hl, hk] at ho
  exact ⟨by omega, ho⟩

/-- The parameters under which the problems of a layer are solved: those of the model at hand, or those that
settings give to a copy. -/
def Jobs.parameters (jobs : Jobs) (s : Settings) (p : Parameters) : Parameters :=
  match jobs with
  | .inPlace => p
  | _ => (Parameters.default.setAll s.changes).1

/-- The optima of a layer come from the model at hand, or from its relaxation, each from attempts of its
own. The model stays. -/
theorem layerOptima_reachedAt {solver : Solver α} {s : Settings} {jobs : Jobs} {prev : List VarId}
    {ns : List (Neuron α)} {os : List (Optima α)} {w w' : Workspace α}
    (h : layerOptima solver s jobs prev (ns.map .ok) w = .ok os w') :
    w'.model = w.model ∧ w'.attempts = w.attempts + 2 * ns.length ∧ os.length = ns.length ∧
      ∀ (j : Nat) n o, ns[j]? = some n → os[j]? = some o →
        o.ReachedAt solver (w.model.subject s.relax (jobs.parameters s w.model.parameters)) prev
          (w.attempts + 2 * j) n := by
  obtain ⟨u, w₀, hsettle, h⟩ := Action.bind_eq_ok.1 h
  have hw₀ := Action.settle_eq_ok.1 hsettle
  have hm₀ : w₀.model = w.model := by rw [hw₀, Workspace.settled_model]
  have hk₀ : w₀.attempts = w.attempts := by rw [hw₀, Workspace.settled_attempts]
  rw [← hm₀, ← hk₀]
  cases jobs with
  | none f => exact absurd h Action.throw_ne_ok
  | inPlace =>
    have hrun : ∀ v v' bs, eachNeuron (neuronOptima solver prev) (ns.map .ok) v = .ok bs v' →
        v.model.SameButObjective v'.model ∧ v'.attempts = v.attempts + 2 * ns.length ∧
          bs.length = ns.length ∧ ∀ (j : Nat) n o, ns[j]? = some n → bs[j]? = some o →
            o.ReachedAt solver v.model prev (v.attempts + 2 * j) n := by
      intro v v' bs hv
      -- every neuron is aimed at the model with the objective of the one before
      refine eachNeuron_eq_ok (P := fun k n o => o.ReachedAt solver v.model prev k n)
        (I := fun m => v.model.SameButObjective m) ?_ rfl hv
      intro n v₁ b v₂ hv₁ hact
      obtain ⟨hsame, hcount, hb⟩ := neuronOptima_eq_ok hact
      refine ⟨hv₁.trans hsame, hcount, hb.width, ?_, ?_⟩
      · have hu := hb.upper
        rw [hv₁] at hu
        exact hu
      · have hl := hb.lower
        rw [hv₁] at hl
        exact hl
    obtain ⟨hm, v, v', hl, hk, hv, hk'⟩ := subproblem_eq_ok (fun v v' hact => (hrun v v' _ hact).1) h
    obtain ⟨-, hcount, hlen, hos⟩ := hrun v v' _ hv
    rw [hl, hk] at hos
    rw [hk] at hcount
    exact ⟨hm, hk'.trans hcount, hlen, hos⟩
  | onCopies =>
    obtain ⟨m, w₁, hmodel, h⟩ := Action.bind_eq_ok.1 h
    obtain ⟨ks, w₂, hks, h⟩ := Action.bind_eq_ok.1 h
    obtain ⟨rfl, rfl⟩ := Action.model_eq_ok.1 hmodel
    obtain ⟨hpos, rfl⟩ := Action.ofExcept_eq_ok.1 hks
    refine eachNeuron_eq_ok (P := fun k n o => o.ReachedAt solver (w₀.model.subject s.relax
      (Jobs.onCopies.parameters s w₀.model.parameters)) prev k n) (I := fun m => m = w₀.model) ?_ rfl h
    intro n v o v' hv hact
    obtain ⟨c, x, hcopy, hsub, rfl⟩ := Action.onCopy_eq_ok hact
    obtain ⟨m, x₁, hm, hsub⟩ := Action.bind_eq_ok.1 hsub
    obtain ⟨rfl, rfl⟩ := Action.model_eq_ok.1 hm
    have hc := copyUnder_eq_ok hcopy
    rw [hv] at hc
    have hprev : c.atPositions ks = prev := by
      rw [hc]
      exact atPositions_positions hpos
    rw [show (_ : Workspace α).model.atPositions ks = prev from hprev] at hsub
    obtain ⟨hcount, ho⟩ := subproblem_neuronOptima hsub
    have hsubject : c.subject s.relax c.parameters =
        w₀.model.subject s.relax (Jobs.onCopies.parameters s w₀.model.parameters) := by
      rw [hc]
      cases s.relax with
      | false => rfl
      | true => rfl
    rw [show (_ : Workspace α).model = c from rfl, hsubject] at ho
    exact ⟨hv, hcount, ho⟩

theorem layerOptima_reached {solver : Solver α} {s : Settings} {jobs : Jobs} {prev : List VarId}
    {ns : List (Neuron α)} {os : List (Optima α)} {w w' : Workspace α}
    (h : layerOptima solver s jobs prev (ns.map .ok) w = .ok os w') :
    w'.model = w.model ∧ List.Forall₂ (fun n o =>
      o.Reached solver (w.model.subject s.relax (jobs.parameters s w.model.parameters)) prev n) ns os := by
  obtain ⟨hm, -, hlen, hos⟩ := layerOptima_reachedAt h
  refine ⟨hm, List.forall₂_iff_get.2 ⟨hlen.symm, fun j hj hj' => ?_⟩⟩
  exact (hos j _ _ (List.getElem?_eq_getElem hj) (List.getElem?_eq_getElem hj')).reached

/-- The optima of a layer come from models that loosen the one at hand, which stays. -/
theorem layerOptima_eq_ok {solver : Solver α} {s : Settings} {jobs : Jobs} {prev : List VarId}
    {ns : List (Neuron α)} {os : List (Optima α)} {w w' : Workspace α}
    (h : layerOptima solver s jobs prev (ns.map .ok) w = .ok os w') :
    w'.model = w.model ∧ List.Forall₂ (fun n o => o.From solver s.relax w.model prev n) ns os := by
  obtain ⟨hm, hos⟩ := layerOptima_reached h
  exact ⟨hm, hos.imp fun n o ho => ⟨_, loosens_subject _ _ _, ho⟩⟩

/-- A layer is tightened with optima on models that loosen the one at hand, which stays. -/
theorem tightenLayer_eq_ok {solver : Solver α} {s : Settings} {jobs : Jobs} {prev : List VarId}
    {l : Layer α} {known is : List (Interval α)} {w w' : Workspace α}
    (h : tightenLayer solver s jobs prev l known w = .ok is w') :
    w'.model = w.model ∧ ∃ os, is = improveAll known os ∧
      List.Forall₂ (fun n o => o.From solver s.relax w.model prev n) l.neurons os := by
  obtain ⟨os, w₁, hos, h⟩ := Action.bind_eq_ok.1 h
  obtain ⟨rfl, rfl⟩ := Action.pure_eq_ok.1 h
  obtain ⟨hm, hos⟩ := layerOptima_eq_ok hos
  exact ⟨hm, os, rfl, hos⟩

end

/-! ### Optima of sound solvers -/

/-- A model that loosens another one admits what that one admits, as it is or relaxed. -/
theorem Model.Loosens.feasible_iff {relax : Bool} {m m' : Model Rat} (h : m.Loosens relax m')
    (x : Assignment Rat) : m'.Feasible x ↔ (m.loosened relax).Feasible x := by
  unfold Model.Feasible
  rw [h.vars, h.rows, m.loosened_rows]
  cases relax <;> rfl

/-- Optima bound a value as far as they are known. -/
def Optima.Bounds (o : Optima Rat) (p : Rat) : Prop :=
  (∀ u ∈ o.upper, p ≤ u) ∧ ∀ l ∈ o.lower, l ≤ p

theorem value_setObjective {m m' : Model Rat} {e : Linear Rat} {maximize : Bool} (x : Assignment Rat)
    (h : m.setObjective e maximize = .ok m') :
    m'.objective.maximize = maximize ∧ m'.objective.value x = e.value x := by
  unfold Model.setObjective at h
  split at h
  · cases h
    refine ⟨rfl, ?_⟩
    show termsValue x _ + e.constant = termsValue x e.terms + e.constant
    rw [termsValue_kept x (fun c => !isZero c) _, termsValue_collect]
    intro c hc
    rw [isZero_rat, Bool.not_eq_false', decide_eq_true_iff] at hc
    exact hc
  · cases h

theorem Solver.Sound.bound {solver : Solver Rat} (hs : solver.Sound) {m : Model Rat} {e : Linear Rat}
    {maximize : Bool} {o : Option Rat} {a : Rat} {x : Assignment Rat}
    (h : solver.Gives m e maximize o) (ha : a ∈ o) (hx : m.Feasible x) :
    if maximize then e.value x ≤ a else a ≤ e.value x := by
  obtain ⟨k, m', r, hset, hr, rfl⟩ := h
  have hsame := setObjective_eq_ok hset
  have hx' : m'.Feasible x := by
    rw [hsame]
    exact hx
  have hgood := hs k m' r hr a ha x hx'
  obtain ⟨hmax, hval⟩ := value_setObjective x hset
  unfold Objective.AtLeastAsGood at hgood
  rw [hmax, hval] at hgood
  exact hgood

/-- The expression that is optimised for a neuron is its affine value. -/
theorem value_neuron (n : Neuron Rat) (prev : List VarId) (x : Assignment Rat) :
    Linear.value ⟨weightTerms n.weights prev, n.bias⟩ x = n.preactivation (prev.map x) := by
  show termsValue x (weightTerms n.weights prev) + n.bias = dot n.weights (prev.map x) + n.bias
  rw [termsValue_weightTerms]

/-- Optima that a sound solver gave bound the affine value wherever the model is feasible, as it is or
relaxed. -/
theorem Optima.From.bounds {solver : Solver Rat} (hs : solver.Sound) {relax : Bool} {m : Model Rat}
    {prev : List VarId} {n : Neuron Rat} {o : Optima Rat} (h : o.From solver relax m prev n)
    {x : Assignment Rat} (hx : (m.loosened relax).Feasible x) : o.Bounds (n.preactivation (prev.map x)) := by
  obtain ⟨m', hl, ho⟩ := h
  have hx' := (hl.feasible_iff x).2 hx
  rw [← value_neuron]
  exact ⟨fun u hu => hs.bound ho.upper hu hx', fun l hl' => hs.bound ho.lower hl' hx'⟩

/-- An optimum that was reached belongs to a model that is feasible, as it is or relaxed. -/
theorem Optima.From.exists_feasible {solver : Solver Rat} (hg : solver.Grounded) {relax : Bool}
    {m : Model Rat} {prev : List VarId} {n : Neuron Rat} {o : Optima Rat}
    (h : o.From solver relax m prev n) : o = ⟨none, none⟩ ∨ ∃ x, (m.loosened relax).Feasible x := by
  obtain ⟨m', hl, ho⟩ := h
  have hgives : ∀ {e maximize b a}, solver.Gives m' e maximize b → a ∈ b →
      ∃ x, (m.loosened relax).Feasible x := by
    rintro e maximize b a ⟨k, m'', r, hset, hr, rfl⟩ ha
    obtain ⟨x, hx⟩ := hg k m'' r hr (optimal_of_optimum? ha)
    rw [setObjective_eq_ok hset] at hx
    exact ⟨x, (hl.feasible_iff x).1 hx⟩
  obtain ⟨upper, lower⟩ := o
  cases upper with
  | some u => exact .inr (hgives ho.upper rfl)
  | none =>
    cases lower with
    | some l => exact .inr (hgives ho.lower rfl)
    | none => exact .inl rfl

/-! ### The better bounds -/

section Improve

variable {i : Interval Rat} {o : Optima Rat} {p : Rat}

theorem improve_eq (i : Interval Rat) (upper lower : Option Rat) :
    i.improve upper lower = ⟨min i.upper (upper.getD i.upper), max i.lower (lower.getD i.lower)⟩ := by
  rw [Interval.improve, smaller_eq_min, larger_eq_max]

theorem improve_within (i : Interval Rat) (upper lower : Option Rat) :
    i.Within (i.improve upper lower) := by
  rw [improve_eq]
  exact ⟨min_le_left _ _, le_max_left _ _⟩

/-- Every bound is kept or is an optimum. -/
theorem improve_replacedAt (i : Interval Rat) (h : o.Bounds p) :
    i.ReplacedAt (i.improve o.upper o.lower) p := by
  rw [improve_eq]
  constructor
  · cases ho : o.upper with
    | none => exact .inl (min_self _)
    | some u =>
      rcases min_choice i.upper u with hm | hm
      · exact .inl hm
      · exact .inr ((h.1 u ho).trans_eq hm.symm)
  · cases ho : o.lower with
    | none => exact .inl (max_self _)
    | some l =>
      rcases max_choice i.lower l with hm | hm
      · exact .inl hm
      · exact .inr (hm.trans_le (h.2 l ho))

theorem improve_has (h : o.Bounds p) (hi : i.Has p) : (i.improve o.upper o.lower).Has p := by
  obtain ⟨hu, hl⟩ := improve_replacedAt i h
  constructor
  · rcases hl with hl | hl
    · exact hl.trans_le hi.1
    · exact hl
  · rcases hu with hu | hu
    · exact hi.2.trans_eq hu.symm
    · exact hu

end Improve

end ReluMilp
