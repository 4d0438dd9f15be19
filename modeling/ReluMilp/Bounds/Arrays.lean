import ReluMilp.Bounds.Interval
import ReluMilp.Tensor.Operand

/-!
# Bounds of arrays

The operations on bounds for arguments that are arrays of any shape.

* `propagateArrays` — bounds through one affine map;
* `Network.boundsOfArrays` — bounds of all layers, from arrays of input bounds;
* `improveValues` — the better of known bounds and of new ones, some of which are missing.
-/

namespace ReluMilp

/-- Upper and lower bounds as arrays. -/
structure BoundArrays (α : Type) where
  upper : Tensor α
  lower : Tensor α

variable {α : Type} [Scalar α]

/-- Whether both arrays are vectors of one length. -/
def areVectors (n : Nat) (upper lower : Tensor α) : Bool :=
  decide (upper.shape = [n]) && decide (lower.shape = [n])

/-- The weighted sums of bounds, before a bias is added. A matrix gives one sum per row; a deeper
array of weights is combined with the bounds along its last dimension and added along its second. -/
def weightedSums (weights upper lower : Tensor α) : Except Fault (BoundArrays α) :=
  match weights.shape with
  | [_, _] =>
    let is := weights.rows.map fun r =>
      Interval.weighted r (Interval.ofLists upper.entries lower.entries)
    .ok ⟨Tensor.ofVector (is.map (·.upper)), Tensor.ofVector (is.map (·.lower))⟩
  | _ =>
    let sums : Option (BoundArrays α) := do
      let withUpper ← Tensor.combine? (· * ·) weights upper
      let withLower ← Tensor.combine? (· * ·) weights lower
      let largest ← Tensor.combine? Scalar.larger withUpper withLower
      let smallest ← Tensor.combine? Scalar.smaller withUpper withLower
      return ⟨← largest.sumSecond?, ← smallest.sumSecond?⟩
    sums.elim (.error .wrongValue) .ok

/-- A bias added to sums, entry by entry. -/
def addBias (sums : Tensor α) (bias : Tensor (Except Fault α)) : Except Fault (Tensor α) := do
  let added ← (Tensor.combine? (fun s b => b.map (s + ·)) sums bias).elim (.error .wrongValue) .ok
  added.traverse id

/-- Bounds of the values of an affine map from the bounds of what it reads. The weights have at
least two dimensions, the bounds are vectors as long as the second one, and the bias is added
to the sums where the shapes combine. An entry of the bias that is no number shows when it is
added. -/
def propagateArrays (weights : Reading α) (bias : Reading (Except Fault α)) (upper lower : Reading α)
    (rectified : Bool) : Except Fault (BoundArrays α) := do
  let w ← weights
  let u ← upper
  let l ← lower
  match w.shape with
  | _ :: n :: _ =>
    if areVectors n u l then
      let u := if rectified then u.map Scalar.relu else u
      let l := if rectified then l.map Scalar.relu else l
      let sums ← weightedSums w u l
      let b ← bias
      return ⟨← addBias sums.upper b, ← addBias sums.lower b⟩
    else .error (.parameter (.boundsLength n))
  | _ => .error .outOfRange

/-- The bounds of all layers from arrays of input bounds. -/
def Network.boundsOfArrays (n : Network α) (upper lower : Reading α) :
    Except Fault (List (List (Interval α))) := do
  let u ← upper
  let l ← lower
  if areVectors n.inputs u l then .ok (n.intervals (Interval.ofLists u.entries l.entries))
  else .error (.parameter (.boundsLength n.inputs))

/-! ### Improving -/

/-- New bounds, the known one where the new one is missing; as many as the shorter list has. -/
def fillMissing (known new : List Value) : List Value :=
  List.zipWith (fun k n => match n with | .null => k | _ => n) known new

/-- The smaller upper and the larger lower bounds of known and of new ones. Both sides are compared
before a result is read as a number. -/
def improveValues (upper lower newUpper newLower : Value) : Except Fault (BoundArrays Float) := do
  let filled (known new : Value) : Except Fault (Tensor Float) :=
    match known.items?, new.items? with
    | some ks, some ns => Tensor.ofValue (.list (fillMissing ks ns))
    | _, _ => .error .wrongKind
  let u ← filled upper newUpper
  let l ← filled lower newLower
  let u ← (← Operand.ofValue upper).pick Scalar.smaller Value.atMost u
  let l ← (← Operand.ofValue lower).pick Scalar.larger Value.atLeast l
  return ⟨← u.traverse id, ← l.traverse id⟩

end ReluMilp
