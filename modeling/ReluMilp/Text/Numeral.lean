import ReluMilp.Number.Binary

/-!
# Numerals

Reading a number from a text, blanks around it aside.

* `readWhole?` — sign and digits;
* `readReal?` — sign, digits with a point or an exponent, or a name of an infinity or of no number.

Digits are those of every script with a decimal system. A single underscore may stand between two
digits.
-/

namespace ReluMilp

/-- Blank characters that may stand around a number. -/
def isBlank (c : Char) : Bool :=
  c.toNat ∈ [9, 10, 11, 12, 13, 32, 133, 160, 5760, 8192, 8193, 8194, 8195, 8196,
    8197, 8198, 8199, 8200, 8201, 8202, 8232, 8233, 8239, 8287, 12288]

/-- The zeros of the scripts with decimal digits. -/
def digitZeros : List Nat := [
  48, 1632, 1776, 1984, 2406, 2534, 2662, 2790, 2918, 3046, 3174, 3302, 3430, 3558, 3664, 3792,
  3872, 4160, 4240, 6112, 6160, 6470, 6608, 6784, 6800, 6992, 7088, 7232, 7248, 42528, 43216,
  43264, 43472, 43504, 43600, 44016, 65296, 66720, 68912, 69734, 69872, 69942, 70096, 70384,
  70736, 70864, 71248, 71360, 71472, 71904, 72016, 72784, 73040, 73120, 92768, 92864, 93008,
  120782, 120792, 120802, 120812, 120822, 123200, 123632, 125264, 130032]

/-- The value of a decimal digit. -/
def digit? (c : Char) : Option Nat :=
  (digitZeros.find? fun z => z ≤ c.toNat ∧ c.toNat < z + 10).map (c.toNat - ·)

/-- A text without the blanks at both ends. -/
def trimBlanks (cs : List Char) : List Char :=
  ((cs.dropWhile isBlank).reverse.dropWhile isBlank).reverse

/-- The longest run of digits in front, and the rest; `after` says that a digit stands before, so
that an underscore followed by a digit may come. -/
def takeDigits (after : Bool) : List Char → List Nat × List Char
  | [] => ([], [])
  | c :: rest =>
    match digit? c with
    | some d =>
      let (ds, left) := takeDigits true rest
      (d :: ds, left)
    | none =>
      if after && c = '_' && (rest.head?.bind digit?).isSome then takeDigits false rest
      else ([], c :: rest)

/-- The number that decimal digits stand for. -/
def ofDigits (ds : List Nat) : Nat := ds.foldl (fun n d => 10 * n + d) 0

/-- A leading sign: whether it is a minus, and the rest. -/
def takeSign : List Char → Bool × List Char
  | '-' :: rest => (true, rest)
  | '+' :: rest => (false, rest)
  | cs => (false, cs)

/-- A whole number. -/
def readWhole? (s : String) : Option Int :=
  let (negative, cs) := takeSign (trimBlanks s.toList)
  match takeDigits false cs with
  | ([], _) => none
  | (ds, []) => some (if negative then -(ofDigits ds : Int) else ofDigits ds)
  | _ => none

/-- The double nearest to `digits · 10^exponent`; an exponent far outside the range of doubles is
cut first, which changes no result. -/
def scaled (negative : Bool) (digits : Nat) (exponent : Int) : Float :=
  let places : Int := (Nat.toDigits 10 digits).length
  if digits = 0 then (Parts.finite negative 0 (-1074)).toFloat
  else if 400 < exponent + places then (Parts.infinite negative).toFloat
  else if exponent + places < -400 then (Parts.finite negative 0 (-1074)).toFloat
  else if 0 ≤ exponent then (Parts.ofQuotient negative (digits * Nat.pow 10 exponent.toNat) 1).toFloat
  else (Parts.ofQuotient negative digits (Nat.pow 10 (-exponent).toNat)).toFloat

/-- What follows the digits of a real number: an exponent, or nothing. -/
def readExponent? : List Char → Option Int
  | [] => some 0
  | c :: rest =>
    if c = 'e' || c = 'E' then
      let (negative, cs) := takeSign rest
      match takeDigits false cs with
      | ([], _) => none
      | (ds, []) => some (if negative then -(ofDigits ds : Int) else ofDigits ds)
      | _ => none
    else none

/-- A real number. -/
def readReal? (s : String) : Option Float :=
  let (negative, cs) := takeSign (trimBlanks s.toList)
  let word := String.ofList (cs.map Char.toLower)
  if word = "inf" || word = "infinity" then some (Parts.infinite negative).toFloat
  else if word = "nan" then some Parts.undefined.toFloat
  else
    let (whole, rest) := takeDigits false cs
    let (places, rest) := match rest with
      | '.' :: more => takeDigits false more
      | _ => ([], rest)
    if whole.isEmpty && places.isEmpty then none
    else (readExponent? rest).map fun e =>
      scaled negative (ofDigits (whole ++ places)) (e - places.length)

end ReluMilp
