import ReluMilp.Tensor.Broadcast
import ReluMilp.Tensor.Reading

/-!
# Operands

Nested lists as they enter an operation on arrays that does not ask for numbers. All entries of an
operand are of one kind: numbers; texts, once there is a text among numbers; or values as they are,
once there is anything else, which includes whole numbers of more than sixty-four bits.

* `Value.entryKind` — the kind of the entries;
* `Operand` — an operand of each kind;
* `Operand.addend` — what is added to numbers, where every entry may turn out to be no number;
* `Operand.pick` — entry by entry the operand or a number, by a comparison.

Texts are refused before any shape is looked at, other entries that are no numbers after that.
-/

namespace ReluMilp

/-- The kind of the entries of an operand. -/
inductive EntryKind where
  | number
  | text
  | any
  deriving Repr, DecidableEq

/-- The kind of entries of two kinds together. -/
def EntryKind.join : EntryKind → EntryKind → EntryKind
  | number, k => k
  | k, number => k
  | text, text => text
  | _, _ => any

namespace Value

mutual

/-- The kind of the entries of nested lists. -/
def entryKind : Value → EntryKind
  | list vs => entryKinds vs
  | bool _ => .number
  | int n => if -(2 ^ 63) ≤ n ∧ n < 2 ^ 64 then .number else .any
  | real _ => .number
  | text _ => .text
  | null => .any
  | record _ => .any

/-- The kind of the entries of values that stand side by side. -/
def entryKinds : List Value → EntryKind
  | [] => .number
  | v :: vs => (entryKind v).join (entryKinds vs)

end

/-- An entry as a summand. -/
def summand : Value → Except Fault Float
  | text _ => .error .wrongKind
  | v => v.asReal

/-- Whether an entry is at most a number, compared exactly; an undefined number compares with
nothing. -/
def atMost : Value → Float → Except Fault Bool
  | real x, y => .ok (x ≤ y)
  | int n, y => .ok (match toRat? y with | some r => (n : Rat) ≤ r | none => 0 < y)
  | bool b, y => .ok ((if b then 1 else 0) ≤ y)
  | _, _ => .error .wrongKind

/-- Whether an entry is at least a number. -/
def atLeast : Value → Float → Except Fault Bool
  | real x, y => .ok (y ≤ x)
  | int n, y => .ok (match toRat? y with | some r => r ≤ (n : Rat) | none => y < 0)
  | bool b, y => .ok (y ≤ (if b then 1 else 0))
  | _, _ => .error .wrongKind

end Value

/-- An operand: its entries, unless they are texts. -/
inductive Operand where
  | numbers (t : Tensor Float)
  | texts
  | values (t : Tensor Value)

namespace Operand

/-- Nested lists as an operand. -/
def ofValue (v : Value) : Except Fault Operand := do
  let _ ← v.shape
  match v.entryKind with
  | .number => return numbers (← Tensor.nested Value.asReal v)
  | .text => return texts
  | .any => return values (← Tensor.nested .ok v)

/-- An operand as what is added to numbers. -/
def addend : Operand → Reading (Except Fault Float)
  | numbers t => .ok (t.map .ok)
  | texts => .error .textOperand
  | values t => .ok (t.map Value.summand)

/-- Entry by entry the operand or a number. Entries that are numbers are compared by `better`, which
gives the result; another entry is kept if `keeps` says so, and read as a number then. -/
def pick (better : Float → Float → Float) (keeps : Value → Float → Except Fault Bool)
    (operand : Operand) (new : Tensor Float) : Except Fault (Tensor (Except Fault Float)) :=
  match operand with
  | numbers t => (Tensor.combine? (fun a b => .ok (better a b)) t new).elim (.error .wrongValue) .ok
  | texts => .error .textOperand
  | values t => do
    let choice (v : Value) (y : Float) : Except Fault (Except Fault Float) := do
      return if ← keeps v y then v.asReal else .ok y
    let chosen ← (Tensor.combine? choice t new).elim (.error .wrongValue) .ok
    chosen.traverse id

end Operand

end ReluMilp
