import ReluMilp.Predictor.LayerOptions

/-!
# Shapes between layers

What layers without weights do to the dimensions of what passes through them.

* `Dims`, `Passage` — dimensions, and what is known of what passes between layers;
* `Dims.axis` — the dimension that an axis names;
* `Dims.reshaped` — other dimensions with as many entries;
* `passageOf` — what comes out of a layer of a kind that takes vectors.

The first dimension of all that passes is open and counts only where an axis is named.
-/

namespace ReluMilp

/-- Dimensions without the first one; an open one is missing. -/
abbrev Dims := List (Option Nat)

/-- What passes between layers. -/
inductive Passage where
  | dims (ds : Dims)
  /-- Something whose dimensions are not followed. -/
  | unknown
  /-- Nothing can be told of what comes out. -/
  | stopped
  deriving Repr, DecidableEq

namespace Dims

/-- A dimension: a whole number that is not negative, or an open one. -/
def ofValue : Value → Except Fault (Option Nat)
  | .null => .ok none
  | .int n => if 0 ≤ n then .ok (some n.toNat) else .error .wrongValue
  | _ => .error .wrongValue

/-- A list of dimensions. -/
def ofValues (v : Value) : Except Fault Dims :=
  match v.items? with
  | some vs => vs.mapM ofValue
  | none => .error .wrongValue

/-- The position of an axis among all dimensions. -/
def position (ds : Dims) (axis : Int) : Option Nat :=
  let rank : Int := ds.length + 1
  let k := if axis < 0 then axis + rank else axis
  if 0 ≤ k ∧ k < rank then some k.toNat else none

/-- The dimension that an axis names, which has to be known. -/
def axis (ds : Dims) (v : Value) : Except Fault Nat := do
  let k ← v.index?.elim (.error .wrongKind) .ok
  match ds.position k with
  | none => throw .outOfRange
  | some k => ((none :: ds)[k]?.getD none).elim (.error .wrongValue) .ok

/-- The axes of an option: one, or a list of them. -/
def axes (v : Value) : List Value := v.repeated 1

/-- The number of entries, if every dimension is known. -/
def volume? (ds : Dims) : Option Nat := (ds.mapM id).map volume

/-- Dimensions with as many entries; one of them may be left open as minus one. -/
def reshaped (ds : Dims) (target : List Int) : Except Fault Dims :=
  let known (n : Int) : Option Nat := if n = -1 then none else some n.toNat
  let rest : Nat := volume ((target.filter (· ≠ -1)).map Int.toNat)
  if 1 < target.countP (· = -1) || target.any (· < -1) then .error .wrongValue
  else
    match ds.volume? with
    | none => .ok (target.map known)
    | some n =>
      if target.contains (-1) then
        if rest = 0 ∨ n % rest ≠ 0 then .error .wrongValue
        else .ok (target.map fun m => some ((known m).getD (n / rest)))
      else if n = rest then .ok (target.map known)
      else .error .wrongValue

/-- Everything in one dimension. -/
def flattened (ds : Dims) : Dims := [ds.volume?]

/-- Dimensions in another order, counted from one. -/
def permuted (ds : Dims) (order : List Value) : Except Fault Dims :=
  if order.length = ds.length then
    .ok (order.map fun k => (ds[((k.index?.getD 1) - 1).toNat]?).getD none)
  else .error .wrongValue

/-- Some axes exist and their dimensions are known. -/
def checkAxes (ds : Dims) (axes : List Value) : Except Fault Unit :=
  axes.forM fun a => do
    let _ ← ds.axis a

/-- Some axes exist. -/
def checkPositions (ds : Dims) (axes : List Value) : Except Fault Unit :=
  axes.forM fun a => do
    let k ← a.index?.elim (.error .wrongKind) .ok
    if (ds.position k).isNone then throw .wrongValue

/-- Groups of equal size along an axis. -/
def checkGroups (ds : Dims) (groups axis : Value) : Except Fault Unit := do
  let n ← ds.axis axis
  let g ← groups.index?.elim (.error .wrongKind) .ok
  let g := if g = -1 then (n : Int) else g
  if (n : Int) < g then throw .wrongValue
  if g = 0 then throw .divisionByZero
  if (n : Int) % g ≠ 0 then throw .wrongValue

/-- Parameters that are shared along axes, counted from one; all other dimensions are known. -/
def checkShared (ds : Dims) (axes : List Value) : Except Fault Unit := do
  let rank : Int := ds.length
  let shared ← axes.mapM fun a => do
    let (k : Int) ← a.index?.elim (.error .wrongKind) .ok
    let k := if k < 1 then k - 1 + rank else k - 1
    if 0 ≤ k ∧ k < rank then return k.toNat else throw .outOfRange
  if ds.zipIdx.any fun (d, k) => d.isNone && !shared.contains k then throw .wrongValue

end Dims

open LayerOption in
/-- What comes out of a layer of a kind that takes vectors. -/
def passageOf (kind : String) (options : Value) (ds : Dims) : Except Fault Passage := do
  let option (key : String) (absent : Value) : Value := (options.field? key).getD absent
  match kind with
  | "BatchNormalization" =>
    let k ← (option "axis" (.int (-1))).truncated
    ds.checkAxes [.int k]
    return .dims ds
  | "LayerNormalization" | "RMSNormalization" =>
    ds.checkAxes (Dims.axes (option "axis" (.int (-1))))
    return .dims ds
  | "GroupNormalization" =>
    ds.checkGroups (option "groups" (.int 32)) (option "axis" (.int (-1)))
    return .dims ds
  | "Normalization" =>
    match option "axis" (.int (-1)) with
    | .null => return .dims ds
    | axis =>
      ds.checkPositions (Dims.axes axis)
      ds.checkAxes (Dims.axes axis)
      return .dims ds
  | "UnitNormalization" =>
    ds.checkPositions (Dims.axes (option "axis" (.int (-1))))
    return .dims ds
  | "PReLU" =>
    ds.checkShared (match option "shared_axes" .null with
      | .null => []
      | .list vs => vs
      | v => [v])
    return .dims ds
  | "Flatten" => return .dims ds.flattened
  | "Permute" => return .dims (← ds.permuted (((options.option "dims").items?).getD []))
  | "Reshape" =>
    let target ← (((options.option "target_shape").items?).getD []).mapM fun v =>
      v.index?.elim (.error .wrongKind) .ok
    return .dims (← ds.reshaped target)
  | "RepeatVector" =>
    if ds.length = 1 then
      return .dims (((options.option "n").index?.map Int.toNat) :: ds)
    else throw .wrongValue
  | "Embedding" =>
    let rows ← Dims.ofValue (options.option "input_dim")
    let width ← Dims.ofValue (options.option "output_dim")
    if rows.isNone || width.isNone then throw .wrongValue
    return .dims (ds ++ [width])
  | "EinsumDense" | "CategoryEncoding" | "MelSpectrogram" | "Resizing" => return .unknown
  | "AdaptiveAveragePooling1D" | "AdaptiveAveragePooling2D" | "AdaptiveAveragePooling3D"
  | "AdaptiveMaxPooling1D" | "AdaptiveMaxPooling2D" | "AdaptiveMaxPooling3D" => return .unknown
  | "RandomCrop" => if ds.length < 2 then throw .outOfRange else return .unknown
  | "Lambda" | "Layer" => return .stopped
  | _ => return .dims ds

end ReluMilp
