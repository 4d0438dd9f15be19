import ReluMilp.Formulation.Basic
import ReluMilp.Formulation.Request
import ReluMilp.Formulation.Tightening

/-!
# Building formulations

* `addHidden`, `outputDrafts` — the variables and rows of a hidden layer, and the rows of the output layer;
* `buildHidden` — the hidden layers one after the other, each with the bounds that the request asks
  for;
* `retighten` — the hidden layers bounded again on the complete model, their rows replaced;
* `Request.build` — the formulation of a request.

A fault in the middle leaves in the model what was added before.
-/

namespace ReluMilp

variable {α : Type} [Scalar α]

/-- A vector of new variables. -/
def addVector (name : String) (n : Nat) (kind : VarKind) (lower upper : Limit α) :
    Action α (List VarId) :=
  .update fun m => m.addVars (elementNames name n) kind lower upper

/-- A vector of new variables without bounds. -/
def addFree (name : String) (n : Nat) : Action α (List VarId) :=
  addVector name n .continuous .negInf .posInf

/-- The number that the next row gets. -/
def nextRow : Action α RowId := do return (← .model).nextRow

/-- The hidden units of `n` neurons whose rows start at `base`: first the two rows of every neuron
with a binary variable, then the affine rows. -/
def unitsFrom (base n : Nat) (xs ss zs : List VarId) : List HiddenUnit :=
  number (fun i (x, s, z) => ⟨x, s, z, base + 2 * i, base + 2 * i + 1, base + 2 * n + i⟩) 0
    (xs.zip (ss.zip zs))

/-- A whole number as a value. -/
def indexValue (n : Nat) : Value := .int n

/-- The rows of a hidden layer with binary variables. -/
def layerBigMBlocks (name : Value) (k : Nat) (xs ss zs : List VarId) (is : List (Interval α)) :
    List (RowBlock α) :=
  (number (fun i ((x, s, z), b) => bigMBlocks name (indexValue k) (indexValue i) x s z b) 0
    ((xs.zip (ss.zip zs)).zip is)).flatten

/-- The affine rows of a hidden layer. -/
def layerDrafts (name : String) (xs ss : List VarId) (l : Layer α) (prev : List VarId) :
    List (RowDraft α) :=
  List.zipWith (fun t ((x, s), n) => hiddenDraft t x s n prev) (elementNames name l.outputs)
    ((xs.zip ss).zip l.neurons)

/-- The affine rows of the output layer. -/
def outputDrafts (name : String) (xs : List VarId) (l : Layer α) (prev : List VarId) :
    List (RowDraft α) :=
  List.zipWith (fun t (x, n) => outputDraft t x n prev) (elementNames name l.outputs)
    (xs.zip l.neurons)

/-- Variables and rows of hidden layer `k`. -/
def addHidden (name : Value) (k : Nat) (prev : List VarId) (l : Layer α) (is : List (Interval α)) :
    Action α (List HiddenUnit) := do
  let xs ← addVector (layerName name "x" k) l.outputs .continuous (.finite 0) .posInf
  let ss ← addVector (layerName name "s" k) l.outputs .continuous (.finite 0) .posInf
  let zs ← addVector (layerName name "z" k) l.outputs .binary (.finite 0) (.finite 1)
  let base ← nextRow
  let _ ← .commit (layerBigMBlocks name k xs ss zs is
    ++ [⟨true, layerDrafts (layerName name "mix" k) xs ss l prev⟩])
  return unitsFrom base l.outputs xs ss zs

/-- The rows that bound the outputs. -/
def rangeBlocks (name : Value) (outputs : List VarId) : Plan α → List (RowBlock α)
  | .output range =>
    [⟨true, boundDrafts (qualify name "output_lb") .ge outputs (range.map (·.lower))⟩,
      ⟨true, boundDrafts (qualify name "output_ub") .le outputs (range.map (·.upper))⟩]
  | _ => []

/-- The bounds of layer `k`: the given ones, or those that follow from the layer before, which have to be
as many as the layer reads values, tightened if the plan says so. -/
def layerBounds (solver : Solver α) (r : Request α) (k : Nat) (prev : List VarId) (rectified : Bool)
    (before : List (Interval α)) (l : Layer α) : Action α (List (Interval α)) :=
  match r.given with
  | some table => pure ((table[k - 1]?).getD [])
  | none => do
    let is ← .ofExcept (l.propagate rectified before)
    match r.plan with
    | .standard => tightenLayer solver r.settings r.jobs prev l is
    | _ => pure is

/-- What stands in the model once hidden layers are built, and where the next layer starts. -/
structure Stem (α : Type) where
  units : List (List HiddenUnit)
  table : List (List (Interval α))
  last : List VarId
  rectified : Bool
  bounds : List (Interval α)

/-- The hidden layers from number `k` on. -/
def buildHidden (solver : Solver α) (r : Request α) :
    Nat → List VarId → Bool → List (Interval α) → List (Layer α) → Action α (Stem α)
  | _, prev, rectified, before, [] => pure ⟨[], [], prev, rectified, before⟩
  | k, prev, rectified, before, l :: ls => do
    let is ← layerBounds solver r k prev rectified before l
    let us ← addHidden r.name k prev l is
    let rest ← buildHidden solver r (k + 1) (us.map (·.x)) true is ls
    return { rest with units := us :: rest.units, table := is :: rest.table }

/-- New rows with a binary variable for a neuron; the old ones are removed. -/
def replaceUnit (name : Value) (layer neuron : Value) (u : HiddenUnit) (i : Interval α) :
    Action α HiddenUnit := do
  .dropRows [u.upperRow, u.lowerRow]
  let base ← nextRow
  let _ ← .commit (bigMBlocks name layer neuron u.x u.s u.z i)
  return { u with upperRow := base, lowerRow := base + 1 }

/-- New rows for the neurons of layer `k` from number `i` on. -/
def replaceUnits (name : Value) (k : Nat) :
    Nat → List HiddenUnit → List (Interval α) → Action α (List HiddenUnit)
  | i, u :: us, b :: bs => do
    let u ← replaceUnit name (indexValue k) (indexValue i) u b
    let us ← replaceUnits name k (i + 1) us bs
    return u :: us
  | _, us, _ => pure us

omit [Scalar α] in
/-- Only hidden layers have rows to be replaced. -/
def Network.checkHidden (n : Network α) (k : Nat) : Except Fault Unit :=
  if 1 ≤ k ∧ k ≤ n.hidden.length then .ok ()
  else .error (.parameter (.notHidden (indexValue k).asText))

/-- Hidden layers from number `k` on bounded again on the model as it is. -/
def retighten (solver : Solver α) (r : Request α) :
    Nat → List VarId → List (Layer α) → List (List HiddenUnit) → List (List (Interval α)) →
    Action α (List (List HiddenUnit) × List (List (Interval α)))
  | k, prev, l :: ls, us :: uss, is :: iss => do
    let is ← tightenLayer solver r.settings r.jobs prev l is
    .ofExcept (r.network.checkHidden k)
    let us ← replaceUnits r.name k 0 us is
    let (uss, iss) ← retighten solver r (k + 1) (us.map (·.x)) ls uss iss
    return (us :: uss, is :: iss)
  | _, _, _, uss, iss => pure (uss, iss)

/-- The formulation of a request in the model. -/
def Request.build (solver : Solver α) (r : Request α) : Action α (Formulation α) := do
  let n := r.network
  let inputs ← addFree (layerName r.name "x" 0) n.inputs
  let inputRows ← .commit
    [⟨true, boundDrafts (qualify r.name "input_ub") .le inputs (r.box.map (·.upper))⟩,
      ⟨true, boundDrafts (qualify r.name "input_lb") .ge inputs (r.box.map (·.lower))⟩]
  let stem ← buildHidden solver r 1 inputs false r.box n.hidden
  let k := n.hidden.length + 1
  let is ← layerBounds solver r k stem.last stem.rectified stem.bounds n.output
  let outputs ← addFree (layerName r.name "x" k) n.outputs
  let affine := outputDrafts (layerName r.name "mix" k) outputs n.output stem.last
  let rows ← .commit (⟨true, affine⟩ :: rangeBlocks r.name outputs r.plan)
  let body : Body :=
    { inputs := inputs
      inputRows := inputRows
      hidden := stem.units
      outputs := outputs
      outputRows := rows.take n.outputs
      rangeRows := rows.drop n.outputs }
  match r.plan with
  | .output range =>
    let (units, table) ← retighten solver r 1 inputs n.hidden stem.units stem.table
    return ⟨n, r.name, .output, table ++ [range], some { body with hidden := units }⟩
  | plan => return ⟨n, r.name, plan.mode, stem.table ++ [is], some body⟩

end ReluMilp
