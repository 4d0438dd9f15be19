import ReluMilp.Tensor.Operand

/-!
# Arguments

What descriptions of predictors ask of a single argument.

* `Value.number?` — a number as an exact value, `Value.divides` — whether one number divides another;
* `Value.repeated` — the items of a value, or copies of it;
* `Argument.nothing`, `Argument.position`, `Argument.rate`, `Argument.order`, `Argument.scale`,
  `Argument.device` — checks of single arguments;
* `Argument.size`, `Argument.sizes` — dimensions of arrays.
-/

namespace ReluMilp

namespace Value

/-- A number or a truth value as an exact value. -/
def number? : Value → Option Rat
  | bool b => some (if b then 1 else 0)
  | int n => some n
  | real x => toRat? x
  | _ => none

/-- Whether the first number divides the second one. -/
def divides (a b : Value) : Except Fault Bool :=
  match a.number?, b.number? with
  | some a, some b => if a = 0 then .error .divisionByZero else .ok (decide ((b / a).den = 1))
  | _, _ => .error .wrongKind

/-- The items of a value that has some, or copies of the value. -/
def repeated (copies : Nat) (v : Value) : List Value :=
  v.items?.getD (List.replicate copies v)

end Value

namespace Argument

/-- A check that everything passes. -/
def free (_ : Value) : Except Fault Unit := .ok ()

/-- Nothing may be given. -/
def nothing (v : Value) : Except Fault Unit := if v.isNull then .ok () else .error .wrongKind

/-- A whole number may be given. -/
def position (v : Value) : Except Fault Unit :=
  if v.isNull || v.index?.isSome then .ok () else .error .wrongKind

/-- A number or a truth value. -/
def amount (v : Value) : Except Fault Unit :=
  match v with
  | .text _ => .error .wrongKind
  | v => v.asReal.map fun _ => ()

/-- Whether a number is larger than one. -/
def exceedsOne : Value → Bool
  | .int n => 1 < n
  | .real x => 1 < x
  | _ => false

/-- A rate lies neither below zero nor above one. -/
def rate (v : Value) : Except Fault Unit := do
  if (← v.isNegative) || exceedsOne v then throw .wrongValue

/-- A number above zero. -/
def positive (v : Value) : Except Fault Unit := do
  if ← v.atMost 0 then throw .wrongValue

/-- One or two. -/
def order (v : Value) : Except Fault Unit :=
  if v.number? = some 1 || v.number? = some 2 then .ok () else .error .wrongValue

/-- A number or the text of one, unless the value counts as false. -/
def scale (v : Value) : Except Fault Unit :=
  if v.truth then v.asReal.map fun _ => () else .ok ()

/-- The name of a place for arrays, or nothing. -/
def device (v : Value) : Except Fault Unit :=
  match v with
  | .null => .ok ()
  | .text s => if ["cpu", "meta"].contains s then .ok () else .error .misfit
  | .int _ => .error .misfit
  | _ => .error .wrongKind

/-- A dimension of an array. -/
def size (v : Value) : Except Fault Nat :=
  match v with
  | .int n => if n < 0 then .error .misfit else .ok n.toNat
  | _ => .error .wrongKind

/-- The dimensions of an array: items first are whole numbers, and then none of them is negative. -/
def sizesOf (vs : List Value) : Except Fault (List Nat) := do
  let known (v : Value) : Bool := match v with
    | .int _ => true
    | _ => false
  if !vs.all known then throw .wrongKind
  vs.mapM size

/-- One dimension of an array, or a list of them. -/
def sizes (v : Value) : Except Fault Unit :=
  match v with
  | .list vs => (sizesOf vs).map fun _ => ()
  | v => (size v).map fun _ => ()

/-- Anything that has items, or nothing. -/
def collection (v : Value) : Except Fault Unit :=
  if v.isNull || v.items?.isSome then .ok () else .error .wrongKind

/-- A collection in which nothing but nothing stands. -/
def holders (v : Value) : Except Fault Unit := do
  collection v
  (v.items?.getD []).forM nothing

/-- Names with what they stand for: a record, or a list of pairs. -/
def pairs (v : Value) : Except Fault (List (Value × Value)) :=
  match v with
  | .null => .ok []
  | .record fields => .ok (fields.map fun (k, v) => (.text k, v))
  | v => do
    (← v.items?.elim (.error .wrongKind) .ok).mapM fun item =>
      match item.items? with
      | some [k, v] => .ok (k, v)
      | some _ => .error .wrongValue
      | none => .error .wrongKind

/-- Names that stand for anything. -/
def nameTable (v : Value) : Except Fault Unit := do
  for (key, _) in ← pairs v do
    match key with
    | .text _ => pure ()
    | _ => throw .wrongKind

/-- Names that stand for nothing; a name may neither be empty nor have a point. -/
def holderTable (v : Value) : Except Fault Unit := do
  for (key, held) in ← pairs v do
    nothing held
    match key with
    | .text s => if s.isEmpty || s.contains '.' then throw .missingKey
    | _ => throw .wrongKind

end Argument

end ReluMilp
