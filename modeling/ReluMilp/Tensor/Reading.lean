import ReluMilp.Tensor.Basic
import ReluMilp.Value

/-!
# Reading tensors

Nested lists of numbers as tensors. Lists that stand side by side have the same shape; this is
checked before any entry is read.

* `Value.shape` — the shape of nested lists;
* `Tensor.nested` — nested lists with entries read by any function;
* `Tensor.ofValue` — entries of an array: a missing entry is an undefined number, a text is read as a
  number;
* `Tensor.toValue` — the nested lists of a tensor.
-/

namespace ReluMilp

namespace Value

mutual

/-- The shape of nested lists; everything else is a single entry. -/
def shape : Value → Except Fault (List Nat)
  | list vs => do
    match ← shapes vs with
    | [] => .ok [0]
    | s :: ss => if ss.all (· = s) && s.length < 64 then .ok (vs.length :: s) else .error .wrongValue
  | _ => .ok []

/-- The shapes of values that stand side by side. -/
def shapes : List Value → Except Fault (List (List Nat))
  | [] => .ok []
  | v :: vs => do
    let s ← shape v
    let ss ← shapes vs
    .ok (s :: ss)

end

/-- An entry of an array. -/
def entry : Value → Except Fault Float
  | null => .ok Parts.undefined.toFloat
  | v => v.asReal

end Value

namespace Tensor

mutual

/-- The tensor of nested lists whose entries are read by `item`. -/
def nested {α : Type} (item : Value → Except Fault α) : Value → Except Fault (Tensor α)
  | .list vs => do
    match ← nestedItems item vs with
    | [] => .ok (stack [] [] (by simp))
    | t :: ts =>
      if h : ∀ u ∈ t :: ts, u.shape = t.shape then .ok (stack t.shape (t :: ts) h)
      else .error .wrongValue
  | v => (item v).map single

/-- The tensors of values that stand side by side. -/
def nestedItems {α : Type} (item : Value → Except Fault α) :
    List Value → Except Fault (List (Tensor α))
  | [] => .ok []
  | v :: vs => do
    let t ← nested item v
    let ts ← nestedItems item vs
    .ok (t :: ts)

end

/-- An array. -/
def ofValue (v : Value) : Except Fault (Tensor Float) := do
  let _ ← v.shape
  nested Value.entry v

/-- The nested lists of entries in a shape. -/
def nest : List Nat → List Float → Value
  | [], xs => (xs.head?.map .real).getD .null
  | n :: ns, xs => .list ((chunks (volume ns) n xs).map (nest ns))

/-- A tensor as nested lists. -/
def toValue (t : Tensor Float) : Value := nest t.shape t.entries

end Tensor

end ReluMilp
