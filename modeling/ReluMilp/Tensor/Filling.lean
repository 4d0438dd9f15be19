import ReluMilp.Tensor.Broadcast
import ReluMilp.Value

/-!
# Filling tensors

Nested lists of numbers as tensors, in a shape that is known before any entry is read: the first
items give it, and all others have to agree. If there are no entries in that shape, the others are
not looked at.

* `Value.firstShape` — the shape of the first items;
* `Value.fill` — the entries of nested lists in a shape;
* `Tensor.filled` — the tensor. Unlike in an array, an entry is a number or a truth value and
  nothing else.
-/

namespace ReluMilp

namespace Value

mutual

/-- The shape that the first items give; a text among them has none, unless it is empty. -/
def firstShape : Value → Except Fault (List Nat)
  | list vs => do return vs.length :: (← firstItemShape vs)
  | text s => if s.isEmpty then .ok [0] else .error .wrongValue
  | _ => .ok []

/-- The shape of the first of some values. -/
def firstItemShape : List Value → Except Fault (List Nat)
  | [] => .ok []
  | v :: _ => firstShape v

end

/-- A number or a truth value. -/
def asEntry : Value → Except Fault Float
  | text _ => .error .wrongKind
  | v => v.asReal

/-- The entries of nested lists in a shape, in reading order. -/
def fill : List Nat → Value → Except Fault (List Float)
  | [], v => do return [← v.asEntry]
  | n :: ns, v =>
    match v.items? with
    | none => .error .wrongKind
    | some vs => if vs.length = n then (vs.mapM (fill ns)).map List.flatten else .error .wrongValue

end Value

namespace Tensor

/-- The tensor of nested lists, in the shape of the first items; a text is none. -/
def filled (v : Value) : Except Fault (Tensor Float) := do
  match v with
  | .text _ => throw .wrongKind
  | v => do
    let shape ← v.firstShape
    let entries ← if volume shape = 0 then pure [] else v.fill shape
    (ofEntries? shape entries).elim (.error .wrongValue) .ok

end Tensor

end ReluMilp
