import ReluMilp.Text.Case
import ReluMilp.Value

/-!
# Tightening modes

How the bounds of a formulation are found.

* `fast` — intervals only;
* `standard` — every neuron is also bounded by optimising over the layers before it;
* `output` — the hidden layers are bounded again on the complete model, under bounds on the output.
-/

namespace ReluMilp

/-- How bounds are found. -/
inductive Mode where
  | fast
  | standard
  | output
  deriving Repr, DecidableEq

namespace Mode

/-- The published name. -/
def name : Mode → String
  | fast => "fast"
  | standard => "standard"
  | output => "output"

/-- The mode with the given name. -/
def ofName? (s : String) : Option Mode := [fast, standard, output].find? (·.name = s)

/-- The mode that a value names, in any case. -/
def ofValue (v : Value) : Except Fault Mode :=
  match ofName? (lower v.asText) with
  | some m => .ok m
  | none => .error (.parameter (.unknownMode v.asText))

end Mode

end ReluMilp
