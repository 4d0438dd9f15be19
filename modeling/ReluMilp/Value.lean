import ReluMilp.Fault
import ReluMilp.Number.Layout
import ReluMilp.Text.Numeral
import ReluMilp.Text.Quoted

/-!
# Values given by callers

Names, settings and arguments come as values of any shape. This module holds what the library asks
of them.

* `Value` — nothing, a truth value, a whole or a real number, a text, a list or a record;
* `Value.asText` — the text of a value, `Value.truth` — whether it counts as true;
* `Value.items?`, `Value.kindName` — its items and the name of its kind;
* `Value.asReal`, `Value.truncated`, `Value.index?` — a value as a number.
-/

namespace ReluMilp

/-- A value without a fixed shape. The fields of a record keep their order, and their keys are texts: mappings
with other keys are left out. -/
inductive Value where
  | null
  | bool (b : Bool)
  | int (n : Int)
  | real (x : Float)
  | text (s : String)
  | list (items : List Value)
  | record (fields : List (String × Value))
  deriving Inhabited

namespace Value

/-- The name of the kind of a value. -/
def kindName : Value → String
  | null => "NoneType"
  | bool _ => "bool"
  | int _ => "int"
  | real _ => "float"
  | text _ => "str"
  | list _ => "list"
  | record _ => "dict"

/-- Whether a value counts as true: zeros and everything empty do not, an undefined number does. -/
def truth : Value → Bool
  | null => false
  | bool b => b
  | int n => n != 0
  | real x => !(x == 0)
  | text s => !s.isEmpty
  | list vs => !vs.isEmpty
  | record fs => !fs.isEmpty

mutual

/-- The text of a value as it stands inside the text of a list: texts are quoted. -/
def shown : Value → String
  | null => "None"
  | bool true => "True"
  | bool false => "False"
  | int n => toString n
  | real x => plain.text x
  | text s => quoted s
  | list vs => "[" ++ String.intercalate ", " (shownItems vs) ++ "]"
  | record fs => "\x7b" ++ String.intercalate ", " (shownFields fs) ++ "\x7d"

/-- The texts of the items of a list. -/
def shownItems : List Value → List String
  | [] => []
  | v :: vs => shown v :: shownItems vs

/-- The texts of the fields of a record. -/
def shownFields : List (String × Value) → List String
  | [] => []
  | (k, v) :: fs => (quoted k ++ ": " ++ shown v) :: shownFields fs

end

/-- Whether a value is the given text. -/
def isText (v : Value) (s : String) : Bool :=
  match v with
  | text t => t = s
  | _ => false

/-- Whether a value is missing. -/
def isNull : Value → Bool
  | null => true
  | _ => false

/-- The text of a value; a text is its own. -/
def asText : Value → String
  | text s => s
  | v => shown v

/-- How a message names what carries this name: by the name if it is a text, else by its kind. -/
def subject : Value → String
  | text s => s
  | v => v.kindName

/-- The items of a list, the characters of a text or the keys of a record. -/
def items? : Value → Option (List Value)
  | list vs => some vs
  | text s => some (s.toList.map fun c => text (String.singleton c))
  | record fs => some (fs.map fun (k, _) => text k)
  | _ => none

/-- The value of a field of a record. -/
def field? : Value → String → Option Value
  | record fs, key => (fs.find? fun (k, _) => k = key).map (·.2)
  | _, _ => none

/-! ### Numbers -/

/-- The double nearest to a whole number, unless it lies beyond the largest one. -/
def ofWhole (n : Int) : Except Fault Float :=
  match Parts.ofQuotient (decide (n < 0)) n.natAbs 1 with
  | .infinite _ => .error .overflow
  | p => .ok p.toFloat

/-- A value as a real number. -/
def asReal : Value → Except Fault Float
  | bool b => .ok (if b then 1 else 0)
  | int n => ofWhole n
  | real x => .ok x
  | text s => (readReal? s).elim (.error .wrongValue) .ok
  | _ => .error .wrongKind

/-- A real number without its places, toward zero. -/
def truncate (x : Float) : Except Fault Int :=
  match Parts.ofFloat x with
  | .finite negative m q =>
    let n : Nat := if 0 ≤ q then m * Nat.pow 2 q.toNat else m / Nat.pow 2 (-q).toNat
    .ok (if negative then -(n : Int) else n)
  | .infinite _ => .error .overflow
  | .undefined => .error .wrongValue

/-- A value as a whole number. -/
def truncated : Value → Except Fault Int
  | bool b => .ok (if b then 1 else 0)
  | int n => .ok n
  | real x => truncate x
  | text s => (readWhole? s).elim (.error .wrongValue) .ok
  | _ => .error .wrongKind

/-- Whether a number is negative. -/
def isNegative : Value → Except Fault Bool
  | bool _ => .ok false
  | int n => .ok (n < 0)
  | real x => .ok (x < 0)
  | _ => .error .wrongKind

/-- A value that can count positions. -/
def index? : Value → Option Int
  | bool b => some (if b then 1 else 0)
  | int n => some n
  | _ => none

/-- A value that equals a whole number. -/
def whole? : Value → Option Int
  | bool b => some (if b then 1 else 0)
  | int n => some n
  | real x =>
    match toRat? x with
    | some r => if r.den = 1 then some r.num else none
    | none => none
  | _ => none

end Value

end ReluMilp
