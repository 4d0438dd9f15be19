import ReluMilp.Bounds.Arrays
import ReluMilp.Formulation.Jobs
import ReluMilp.Milp.Workspace
import ReluMilp.Settings

/-!
# Tightening by optimisation

The affine value of a neuron is made as large and as small as the model allows, and the two optima
are bounds of it.

* `optimalValue` — the largest or the smallest value of an expression, missing if it is not reached;
* `neuronOptima` — the two optima of one neuron;
* `subproblem` — an action whose changes of the objective and of the kinds of the variables are
  taken back;
* `layerOptima` — of all neurons of a layer, on the model itself or on copies of it;
* `neuronsOf` — the neurons of arrays of any shape, some of which may be none;
* `tightenLayer` — the better of known bounds and of the optima;
* `tightenArrays` — the same for bounds that are arrays.
-/

namespace ReluMilp

variable {α : Type} [Scalar α]

/-- The optima of the affine value of a neuron, as far as they are known. -/
structure Optima (α : Type) where
  upper : Option α
  lower : Option α
  deriving Repr, DecidableEq

/-- The affine value of a neuron over the variables before it, as many as it has weights. -/
def Neuron.expression (n : Neuron α) (prev : List VarId) : Except Fault (Linear α) :=
  if n.weights.length = prev.length then .ok ⟨weightTerms n.weights prev, n.bias⟩
  else .error .refused

/-- An expression as the objective of the model. -/
def aim (e : Linear α) (maximize : Bool) : Action α Unit :=
  .update fun m => (m.setObjective e maximize).map fun m => (m, ())

/-- The largest or the smallest value of an expression, as far as it is known. -/
def optimalValue (solver : Solver α) (e : Linear α) (maximize : Bool) : Action α (Option α) := do
  aim e maximize
  let o ← .solve solver
  let m ← .model
  return m.optimum? o

/-- The largest and the smallest affine value of a neuron. The objective stays as the second solve
needs it. -/
def neuronOptima (solver : Solver α) (prev : List VarId) (n : Neuron α) : Action α (Optima α) := do
  let e ← .ofExcept (n.expression prev)
  let upper ← optimalValue solver e true
  let lower ← optimalValue solver e false
  return ⟨upper, lower⟩

/-- An action on a model that may be relaxed; afterwards the objective and the kinds of the variables
are as before. -/
def subproblem {β : Type} (relax : Bool) (act : Action α β) : Action α β :=
  .bracket (fun m => if relax then m.relaxed else m)
    (fun before now =>
      let now := if relax then now.setKinds before.kinds else now
      { now with objective := before.objective }) act

/-- An action on every neuron, up to one that is none. -/
def eachNeuron {β : Type} (act : Neuron α → Action α β) :
    List (Except Fault (Neuron α)) → Action α (List β)
  | [] => pure []
  | .error f :: _ => throw f
  | .ok n :: ns => do
    let r ← act n
    let rs ← eachNeuron act ns
    return r :: rs

omit [Scalar α] in
/-- A copy of a model under the parameters that settings give to a new one. -/
def copyUnder (s : Settings) (m : Model α) : Except Fault (Model α) :=
  match Parameters.default.setAll s.changes with
  | (p, none) => .ok { m with parameters := p }
  | (_, some f) => .error f

omit [Scalar α] in
/-- The positions of variables in a model. -/
def Model.positions (m : Model α) (ids : List VarId) : Except Fault (List Nat) :=
  ids.mapM fun id => (m.vars.findIdx? (·.id = id)).elim (.error .refused) .ok

omit [Scalar α] in
/-- The variables at positions of a model. -/
def Model.atPositions (m : Model α) (ks : List Nat) : List VarId :=
  ks.filterMap fun k => (m.vars[k]?).map (·.id)

/-- The optima of one neuron on a copy of the model, whose variables are found by position. -/
def optimaOnCopy (solver : Solver α) (s : Settings) (positions : List Nat) (n : Neuron α) :
    Action α (Optima α) :=
  .onCopy (copyUnder s) (do
    let prev := (← .model).atPositions positions
    subproblem s.relax (neuronOptima solver prev n))

/-- The optima of neurons that read the same variables. -/
def layerOptima (solver : Solver α) (s : Settings) (jobs : Jobs) (prev : List VarId)
    (neurons : List (Except Fault (Neuron α))) : Action α (List (Optima α)) := do
  .settle
  match jobs with
  | .inPlace => subproblem s.relax (eachNeuron (neuronOptima solver prev) neurons)
  | .onCopies => do
    let positions ← .ofExcept ((← .model).positions prev)
    eachNeuron (optimaOnCopy solver s positions) neurons
  | .none f => throw f

omit [Scalar α] in
/-- The weights of a neuron over `n` variables: a vector as long. -/
def weightsOf (n : Nat) (t : Tensor α) : Except Fault (List α) :=
  match t.shape with
  | [m] => if m = n then .ok t.entries else .error .refused
  | m :: _ => .error (if m = n then .wrongKind else .refused)
  | [] => .error .wrongKind

omit [Scalar α] in
/-- The neuron of an array of weights over `n` variables and of a bias, which is a single entry. -/
def neuronOf (n : Nat) (weights bias : Tensor α) : Except Fault (Neuron α) := do
  let ws ← weightsOf n weights
  match bias.shape, bias.entries with
  | [], [b] => return ⟨ws, b⟩
  | _, _ => throw .wrongKind

omit [Scalar α] in
/-- The neurons of the items of an array of weights over `n` variables, each with the bias at its
position. -/
def neuronsOf (n : Nat) (weights bias : Tensor α) : Except Fault (List (Except Fault (Neuron α))) :=
  if weights.rank = 0 then .error .outOfRange
  else .ok (weights.items.zipIdx.map fun (w, k) =>
    (bias.items[k]?).elim (.error .outOfRange) (neuronOf n w))

/-- The better of known bounds and of optima. -/
def improveAll (known : List (Interval α)) (optima : List (Optima α)) : List (Interval α) :=
  List.zipWith (fun i o => i.improve o.upper o.lower) known optima

/-- Tightened bounds of the neurons of a layer. -/
def tightenLayer (solver : Solver α) (s : Settings) (jobs : Jobs) (prev : List VarId) (l : Layer α)
    (known : List (Interval α)) : Action α (List (Interval α)) := do
  let optima ← layerOptima solver s jobs prev (l.neurons.map .ok)
  return improveAll known optima

/-- An optimum as a value, nothing if it is missing. -/
def optimumValue (x : Option Float) : Value := x.elim .null .real

/-- Tightened bounds of the neurons of arrays. -/
def tightenArrays (solver : Solver Float) (s : Settings) (jobs : Jobs) (prev : List VarId)
    (weights bias upper lower : Tensor Float) : Action Float (BoundArrays Float) := do
  .settle
  let neurons ← .ofExcept (neuronsOf prev.length weights bias)
  let optima ← layerOptima solver s jobs prev neurons
  .ofExcept (improveValues upper.toValue lower.toValue
    (.list (optima.map fun o => optimumValue o.upper))
    (.list (optima.map fun o => optimumValue o.lower)))

end ReluMilp
