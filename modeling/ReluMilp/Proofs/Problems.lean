import ReluMilp.Proofs.Optima

/-!
# The problems of a tightening

A solver is asked about the model at hand, or about its relaxation, under some parameters and with some
objective, and about nothing else: two solvers that agree on those models tighten a layer alike.

* `Model.Poses` — a model is a problem about another one; `Solver.AgreeOn` — two solvers agree on all of them;
* `Action.bind_congr`, `Action.solve_congr`, `Action.onCopy_congr` — compositions, solves and work on copies that
  agree;
* `optimalValue_congr`, `neuronOptima_congr`, `eachNeuron_congr`, `subproblem_congr`, `optimaOnCopy_congr`,
  `layerOptima_congr`, `tightenLayer_congr` — from a solve up to a layer.
-/

namespace ReluMilp

variable {α β γ : Type}

/-! ### Compositions -/

namespace Action

/-- Compositions agree if their first actions do, and what follows on these. -/
theorem bind_congr {act act' : Action α β} {next next' : β → Action α γ} {w : Workspace α}
    (h : act w = act' w) (hnext : ∀ b v, act w = .ok b v → next b v = next' b v) :
    (act >>= next) w = (act' >>= next') w := by
  show EStateM.bind act next w = EStateM.bind act' next' w
  unfold EStateM.bind
  rw [← h]
  cases hact : act w with
  | error f v => rfl
  | ok b v => exact hnext b v hact

theorem solve_congr {solver solver' : Solver α} {w : Workspace α}
    (h : solver w.attempts w.model = solver' w.attempts w.model) : solve solver w = solve solver' w := by
  unfold solve
  rw [h]

theorem onCopy_congr {copy : Model α → Except Fault (Model α)} {act act' : Action α β} {w : Workspace α}
    (h : ∀ c, copy w.model = .ok c → act ⟨c, none, false, w.attempts⟩ = act' ⟨c, none, false, w.attempts⟩) :
    onCopy copy act w = onCopy copy act' w := by
  unfold onCopy
  cases hcopy : copy w.model with
  | error f => rfl
  | ok c =>
    dsimp only
    rw [h c hcopy]

end Action

/-! ### Problems -/

variable [Scalar α]

/-- A problem about a model, or about its relaxation. Its parameters and its objective may be any. -/
def Model.Poses (m : Model α) (relax : Bool) (m' : Model α) : Prop :=
  ∃ p e maximize, (m.subject relax p).setObjective e maximize = .ok m'

/-- Two solvers agree on the problems about a model. -/
def Solver.AgreeOn (solver solver' : Solver α) (m : Model α) (relax : Bool) : Prop :=
  ∀ k m', m.Poses relax m' → solver k m' = solver' k m'

section Layers

variable {solver solver' : Solver α} {m : Model α} {relax : Bool} {p : Parameters} {w : Workspace α}

/-- The objective of the problem before does not matter. -/
theorem optimalValue_congr (h : solver.AgreeOn solver' m relax) (e : Linear α) (maximize : Bool)
    (hw : (m.subject relax p).SameButObjective w.model) :
    optimalValue solver e maximize w = optimalValue solver' e maximize w := by
  refine Action.bind_congr rfl fun u v haim => Action.bind_congr (Action.solve_congr ?_) fun _ _ _ => rfl
  have hset := (aim_eq_ok haim).1
  rw [hw] at hset
  exact h _ _ ⟨p, e, maximize, hset⟩

theorem neuronOptima_congr (h : solver.AgreeOn solver' m relax) (prev : List VarId) (n : Neuron α)
    (hw : (m.subject relax p).SameButObjective w.model) :
    neuronOptima solver prev n w = neuronOptima solver' prev n w := by
  refine Action.bind_congr rfl fun e v hexp => ?_
  obtain ⟨-, rfl⟩ := Action.ofExcept_eq_ok.1 hexp
  refine Action.bind_congr (optimalValue_congr h e true hw) fun upper v hupper => ?_
  have hv := (optimalValue_eq_ok hupper hw).1
  exact Action.bind_congr (optimalValue_congr h e false hv) fun _ _ _ => rfl

omit [Scalar α] in
/-- Actions on every neuron agree if each of them does, where something holds of the model that it keeps. -/
theorem eachNeuron_congr {act act' : Neuron α → Action α β} {I : Model α → Prop}
    (step : ∀ n v, I v.model → act n v = act' n v ∧ ∀ b v', act n v = .ok b v' → I v'.model)
    (ns : List (Except Fault (Neuron α))) (hw : I w.model) : eachNeuron act ns w = eachNeuron act' ns w := by
  induction ns generalizing w with
  | nil => rfl
  | cons e ns ih =>
    cases e with
    | error f => rfl
    | ok n =>
      obtain ⟨hact, hkeep⟩ := step n w hw
      exact Action.bind_congr hact fun b v hb => Action.bind_congr (ih (hkeep b v hb)) fun _ _ _ => rfl

omit [Scalar α] in
theorem subproblem_congr {act act' : Action α β}
    (h : ∀ v : Workspace α, v.model = w.model.subject relax w.model.parameters → act v = act' v) :
    subproblem relax act w = subproblem relax act' w := by
  unfold subproblem Action.bracket
  dsimp only
  rw [h]
  cases relax with
  | false => rfl
  | true => rfl

theorem optimaOnCopy_congr {s : Settings} (h : solver.AgreeOn solver' w.model s.relax) (positions : List Nat)
    (n : Neuron α) : optimaOnCopy solver s positions n w = optimaOnCopy solver' s positions n w := by
  refine Action.onCopy_congr fun c hcopy => Action.bind_congr rfl fun m v hmodel => ?_
  obtain ⟨rfl, rfl⟩ := Action.model_eq_ok.1 hmodel
  refine subproblem_congr fun v hv => neuronOptima_congr h _ n (p := c.parameters) ?_
  -- a problem about the copy is one about the model that was copied
  have hsame : c.subject s.relax c.parameters = w.model.subject s.relax c.parameters := by
    rw [copyUnder_eq_ok hcopy]
    cases s.relax with
    | false => rfl
    | true => rfl
  rw [hv, ← hsame]
  exact rfl

/-- The optima of a layer depend on what the solver says of the problems about the model at hand. -/
theorem layerOptima_congr {s : Settings} (h : solver.AgreeOn solver' w.model s.relax) (jobs : Jobs)
    (prev : List VarId) (ns : List (Except Fault (Neuron α))) :
    layerOptima solver s jobs prev ns w = layerOptima solver' s jobs prev ns w := by
  refine Action.bind_congr rfl fun u w₀ hsettle => ?_
  have hw₀ : w₀.model = w.model := by rw [Action.settle_eq_ok.1 hsettle, Workspace.settled_model]
  rw [← hw₀] at h
  cases jobs with
  | none f => rfl
  | inPlace =>
    refine subproblem_congr fun v hv => ?_
    -- every neuron is aimed at the model with the objective of the one before
    refine eachNeuron_congr (I := fun m => v.model.SameButObjective m) (fun n v₁ hv₁ => ⟨?_, ?_⟩) ns rfl
    · rw [hv] at hv₁
      exact neuronOptima_congr h prev n hv₁
    · exact fun o v₂ hact => hv₁.trans (neuronOptima_eq_ok hact).1
  | onCopies =>
    refine Action.bind_congr rfl fun m v hmodel => Action.bind_congr rfl fun ks v' hks => ?_
    obtain ⟨rfl, rfl⟩ := Action.model_eq_ok.1 hmodel
    obtain ⟨-, rfl⟩ := Action.ofExcept_eq_ok.1 hks
    refine eachNeuron_congr (I := fun m => m = w₀.model) (fun n v hv => ⟨?_, ?_⟩) ns rfl
    · rw [← hv] at h
      exact optimaOnCopy_congr h ks n
    · intro o v' hact
      obtain ⟨c, x, -, -, rfl⟩ := Action.onCopy_eq_ok hact
      exact hv

/-- So do the bounds of a layer. -/
theorem tightenLayer_congr {s : Settings} (h : solver.AgreeOn solver' w.model s.relax) (jobs : Jobs)
    (prev : List VarId) (l : Layer α) (known : List (Interval α)) :
    tightenLayer solver s jobs prev l known w = tightenLayer solver' s jobs prev l known w :=
  Action.bind_congr (layerOptima_congr h jobs prev _) fun _ _ _ => rfl

end Layers

end ReluMilp
