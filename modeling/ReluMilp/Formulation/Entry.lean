import ReluMilp.Formulation.Build
import ReluMilp.Predictor.Registry

/-!
# From predictors to formulations

* `formulate` — a predictor turned into a network and formulated in the model at hand, after the
  parameters of given settings are set on the model;
* `formulateAlone` — the same in a new model, named after the network, that gets the parameters in
  any case.
-/

namespace ReluMilp

variable {α : Type} [Scalar α]

/-- A network formulated in the model at hand. Without settings the parameters of the model stay and
those of a default are used for copies of it. -/
def formulateNetwork (solver : Solver α) (settings : Option Settings) (a : BuildArguments α) :
    Action α (Formulation α) := do
  match settings with
  | some s => .changeParameters s.changes
  | none => pure ()
  let r ← .ofExcept ({ a with settings := settings.getD .default }).request
  r.build solver

/-- A predictor formulated in the model at hand. -/
def formulate (solver : Solver α) (convertor : Convertor α) (p : Predictor α)
    (settings : Option Settings) (a : BuildArguments α) : Action α (Formulation α) := do
  let n ← .ofExcept (convertor p)
  formulateNetwork solver settings { a with network := .ok n }

/-- A predictor formulated in a new model. -/
def formulateAlone (solver : Solver α) (convertor : Convertor α) (p : Predictor α)
    (settings : Option Settings) (a : BuildArguments α) :
    Except Fault (Formulation α × Workspace α) := do
  let n ← convertor p
  match n.name with
  | .text name =>
    match formulateNetwork solver (some (settings.getD .default)) { a with network := .ok n }
      (.ofModel (.empty name)) with
    | .ok f w => .ok (f, w)
    | .error e _ => .error e
  | _ => .error .missingMember

end ReluMilp
