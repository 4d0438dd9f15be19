import ReluMilp.Predictor.Draft

/-!
# Regressors

A predictor held as lists of matrices, a row per input, and of vectors, with one activation for all
hidden layers.

* `Regressor` — the predictor;
* `Regressor.network` — the network that computes the same. The matrices say how many layers there
  are, so a list of vectors that is too short leaves a network without an output layer, which is
  refused.
-/

namespace ReluMilp

variable {α : Type}

/-- A regressor, and the name of its kind. -/
structure Regressor (α : Type) where
  kind : String
  fitted : Bool
  activation : Value
  outActivation : Value
  /-- A matrix per layer, a row per input. -/
  coefficients : List (Tensor α)
  intercepts : List (Tensor α)

namespace Regressor

/-- The layers of matrices and vectors, as many as the shorter list has; the last matrix belongs to
the output layer. -/
def drafts (r : Regressor α) : List (Draft α) :=
  (r.coefficients.zip r.intercepts).zipIdx.map fun ((c, i), k) =>
    ⟨c.transpose, i, Network.activationAt r.coefficients.length k⟩

/-- The network of a regressor, by default named after the kind. -/
def network (r : Regressor α) (name : Value) : Except Fault (Network α) :=
  if !r.fitted then .error .notFitted
  else if !r.activation.isText "relu" then
    .error (.noModel r.kind (.regressorActivation r.activation.asText))
  else if !r.outActivation.isText "identity" then
    .error (.noModel r.kind (.regressorOutput r.outActivation.asText))
  else Draft.network r.drafts.reverse (nameOr name (.text (lower r.kind)))

end Regressor

end ReluMilp
