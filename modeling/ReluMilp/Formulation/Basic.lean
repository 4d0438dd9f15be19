import ReluMilp.Formulation.Mode
import ReluMilp.Bounds.Interval
import ReluMilp.Milp.Workspace

/-!
# Formulations

A network in an optimisation model. Every hidden neuron with the affine value `p` has

* a variable `x ≥ 0`, its value after the rectifier, and a variable `s ≥ 0`, what the rectifier cuts
  off, with the row `x - s = p`;
* a binary variable `z`, one if the neuron is off, with the rows `x ≤ U (1 - z)` and `s ≤ M z`, where
  `U` and `M` are the positive parts of an upper bound of `p` and of an upper bound of `-p`.

This file holds

* `HiddenUnit`, `Body` — where the parts of a network stand in a model;
* `Formulation` — a network with its bounds and its body, which is gone once it is removed;
* the rows: `upperDraft`, `lowerDraft`, `hiddenDraft`, `outputDraft`, `boundDrafts`, and the
  blocks in which those with a binary variable are added, `bigMBlocks`;
* the names: `qualify`, `unitRowName`.
-/

namespace ReluMilp

/-- Where a hidden neuron stands in a model. -/
structure HiddenUnit where
  x : VarId
  s : VarId
  z : VarId
  upperRow : RowId
  lowerRow : RowId
  affineRow : RowId
  deriving Repr, DecidableEq

/-- Where a network stands in a model. -/
structure Body where
  inputs : List VarId
  /-- Upper bounds of all inputs, then lower ones. -/
  inputRows : List RowId
  hidden : List (List HiddenUnit)
  outputs : List VarId
  outputRows : List RowId
  /-- Lower bounds of all outputs, then upper ones, if there are any. -/
  rangeRows : List RowId
  deriving Repr, DecidableEq

/-- A network in a model. -/
structure Formulation (α : Type) where
  network : Network α
  name : Value
  mode : Mode
  /-- The bounds of the affine values, a list per layer. -/
  table : List (List (Interval α))
  body? : Option Body

namespace Body

/-- The variables of each layer, the inputs first. -/
def layers (b : Body) : List (List VarId) :=
  b.inputs :: (b.hidden.map fun us => us.map (·.x)) ++ [b.outputs]

/-- The variables of a hidden layer. -/
def unitVars (us : List HiddenUnit) : List VarId :=
  us.map (·.x) ++ us.map (·.s) ++ us.map (·.z)

/-- The rows of a hidden layer. -/
def unitRows (us : List HiddenUnit) : List RowId :=
  us.map (·.affineRow) ++ us.map (·.upperRow) ++ us.map (·.lowerRow)

/-- All variables. -/
def vars (b : Body) : List VarId := b.inputs ++ b.hidden.flatMap unitVars ++ b.outputs

/-- All rows. -/
def rows (b : Body) : List RowId :=
  b.inputRows ++ b.hidden.flatMap unitRows ++ b.outputRows ++ b.rangeRows

end Body

namespace Formulation

variable {α : Type}

/-- All variables; none once the formulation is removed. -/
def vars (f : Formulation α) : List VarId := (f.body?.map (·.vars)).getD []

/-- All rows; none once the formulation is removed. -/
def rows (f : Formulation α) : List RowId := (f.body?.map (·.rows)).getD []

/-- The hidden layers; none once the formulation is removed. -/
def hidden (f : Formulation α) : List (List HiddenUnit) := (f.body?.map (·.hidden)).getD []

end Formulation

/-! ### Names -/

/-- A name of a part, behind the name of the formulation unless that is empty. -/
def qualify (name : Value) (part : String) : String :=
  if name.truth then name.asText ++ "." ++ part else part

/-- The name of the vector of a layer. -/
def layerName (name : Value) (part : String) (k : Nat) : String :=
  qualify name (part ++ "[" ++ toString k ++ "]")

/-- The name of a row of a neuron, with layer and neuron as they were given. -/
def unitRowName (name : Value) (part : String) (layer neuron : Value) : String :=
  qualify name (part ++ "[(" ++ layer.shown ++ "," ++ neuron.shown ++ ")]")

/-! ### Rows -/

variable {α : Type} [Scalar α]

/-- The row `x ≤ U (1 - z)` for the positive part `U` of an upper bound. -/
def upperDraft (name : String) (x z : VarId) (upper : α) : RowDraft α :=
  let u := Scalar.positivePart upper
  ⟨name, [⟨1, x⟩, ⟨u, z⟩], .le, u⟩

/-- The row `s ≤ M z` for the positive part `M` of the negation of a lower bound. -/
def lowerDraft (name : String) (s z : VarId) (lower : α) : RowDraft α :=
  let m := Scalar.positivePart (-lower)
  ⟨name, [⟨1, s⟩, ⟨-m, z⟩], .le, 0⟩

/-- The upper row of a neuron with a binary variable, which is looked at when it is given. -/
def upperBlock (name : Value) (layer neuron : Value) (x z : VarId) (upper : α) : RowBlock α :=
  ⟨true, [upperDraft (unitRowName name "relu_ub" layer neuron) x z upper]⟩

/-- The lower row of a neuron with a binary variable. -/
def lowerBlock (name : Value) (layer neuron : Value) (s z : VarId) (lower : α) : RowBlock α :=
  ⟨false, [lowerDraft (unitRowName name "relu_lb" layer neuron) s z lower]⟩

/-- The two rows of a neuron with a binary variable. -/
def bigMBlocks (name : Value) (layer neuron : Value) (x s z : VarId) (i : Interval α) :
    List (RowBlock α) :=
  [upperBlock name layer neuron x z i.upper, lowerBlock name layer neuron s z i.lower]

/-- The weights of a neuron on the other side of its row. -/
def negatedTerms (n : Neuron α) (prev : List VarId) : List (Term α) :=
  weightTerms (n.weights.map (- ·)) prev

/-- The row `x - s = p` of a hidden neuron. -/
def hiddenDraft (name : String) (x s : VarId) (n : Neuron α) (prev : List VarId) : RowDraft α :=
  ⟨name, ⟨1, x⟩ :: ⟨-1, s⟩ :: negatedTerms n prev, .eq, n.bias⟩

/-- The row `x = p` of an output neuron. -/
def outputDraft (name : String) (x : VarId) (n : Neuron α) (prev : List VarId) : RowDraft α :=
  ⟨name, ⟨1, x⟩ :: negatedTerms n prev, .eq, n.bias⟩

/-- Rows that bound variables on one side. -/
def boundDrafts (name : String) (sense : Sense) (vars : List VarId) (bounds : List α) :
    List (RowDraft α) :=
  List.zipWith (fun t (v, b) => ⟨t, [⟨1, v⟩], sense, b⟩) (elementNames name vars.length)
    (vars.zip bounds)

end ReluMilp
