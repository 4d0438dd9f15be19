import ReluMilp.Predictor.Draft

/-!
# Chains of steps

A predictor that applies steps one after the other: affine maps, rectifiers, and steps that do
nothing when the predictor is used.

* `Step`, `StepChain` — the predictor;
* `StepChain.network` — the network that computes the same: a rectifier belongs to the affine map
  before it, and every affine map but the last has one.
-/

namespace ReluMilp

variable {α : Type}

/-- One step. -/
inductive Step (α : Type) where
  /-- Weights, a row per output, and a bias that may be missing. -/
  | affine (weights : Tensor α) (bias : Option (Tensor α))
  | rectifier
  | dropout
  | identity
  /-- An affine map whose weights cannot be read, and why. -/
  | unreadable (fault : Fault)
  | other (name : String)

/-- A chain of steps, and the name of its kind. -/
structure StepChain (α : Type) where
  kind : String
  steps : List (Step α)

namespace StepChain

/-- The layers of a chain. -/
def collect [Zero α] (kind : String) :
    List (Draft α) → List (Step α) → Except Fault (List (Draft α))
  | drafts, [] => .ok drafts
  | drafts, .affine w b :: rest =>
    collect kind (⟨w, b.getD (Draft.zeros w.shape.head?), .identity⟩ :: drafts) rest
  | drafts, .rectifier :: rest =>
    match Draft.rectify? drafts with
    | some ds => collect kind ds rest
    | none => .error (.noModel kind (.misplacedRectifier "Linear"))
  | drafts, .dropout :: rest => collect kind drafts rest
  | drafts, .identity :: rest => collect kind drafts rest
  | _, .unreadable fault :: _ => .error fault
  | _, .other name :: _ => .error (.noModel kind (.unsupportedStep name))

/-- The network of a chain, by default named after the kind. -/
def network [Zero α] (c : StepChain α) (name : Value) : Except Fault (Network α) := do
  match ← collect c.kind [] c.steps with
  | [] => .error (.noModel c.kind (.noAffineStep "Linear"))
  | ds => Draft.network ds (nameOr name (.text (lower c.kind)))

end StepChain

end ReluMilp
