import ReluMilp.Scalar
import ReluMilp.Text.Case
import ReluMilp.Value

/-!
# Activations

What a layer applies to its affine values.

* `Activation` — the rectifier or nothing;
* `Activation.ofName` — read from a name in any case; `linear` and `none` also mean nothing;
* `Activation.apply` — on one entry.
-/

namespace ReluMilp

/-- The function applied after the affine map of a layer. -/
inductive Activation where
  | relu
  | identity
  deriving Repr, DecidableEq

namespace Activation

/-- The published name. -/
def name : Activation → String
  | relu => "relu"
  | identity => "identity"

/-- The activation with a name in small letters. -/
def ofLower? (s : String) : Option Activation :=
  if s = "relu" then some relu
  else if s = "identity" ∨ s = "linear" ∨ s = "none" then some identity
  else none

/-- The activation that a value names. -/
def ofName (v : Value) : Except Fault Activation :=
  let s := lower v.asText
  match ofLower? s with
  | some a => .ok a
  | none => .error (.noModel s .unknownActivation)

/-- The activation applied to an entry. -/
def apply {α : Type} [Scalar α] : Activation → α → α
  | relu, a => Scalar.relu a
  | identity, a => a

end Activation

end ReluMilp
