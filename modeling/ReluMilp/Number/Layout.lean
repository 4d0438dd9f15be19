import ReluMilp.Number.Shortest

/-!
# Number texts

* `NumberLayout` — the decisions of a text format for numbers;
* `plain` — the layout of all texts of this library: positional for decimal exponents from -4 to
  15, else with an exponent of at least two digits and its sign;
* `NumberLayout.text` — a double in a layout, with the fewest digits that read back.
-/

namespace ReluMilp

/-- Where positional notation starts and ends, and how an exponent is written. -/
structure NumberLayout where
  /-- Least decimal exponent written positionally. -/
  positionalFrom : Int
  /-- First decimal exponent above the positional ones. -/
  positionalTo : Int
  /-- Least number of digits of an exponent. -/
  exponentDigits : Nat
  undefined : String
  infinite : String

/-- The layout of this library's texts. -/
def plain : NumberLayout := ⟨-4, 16, 2, "nan", "inf"⟩

namespace NumberLayout

/-- Zeros in front, up to a width. -/
def padLeft (width : Nat) (s : String) : String :=
  String.ofList (List.replicate (width - s.length) '0') ++ s

/-- A positive decimal without trailing zeros. -/
def decimal (l : NumberLayout) (d : Decimal) : String :=
  let cs := (toString d.digits).toList
  let point : Int := (cs.length : Int) + d.exponent
  let e := point - 1
  if l.positionalFrom ≤ e ∧ e < l.positionalTo then
    if point ≤ 0 then "0." ++ String.ofList (List.replicate (-point).toNat '0' ++ cs)
    else
      let n := point.toNat
      let whole := cs.take n ++ List.replicate (n - cs.length) '0'
      let rest := cs.drop n
      String.ofList whole ++ "." ++ (if rest.isEmpty then "0" else String.ofList rest)
  else
    let rest := cs.drop 1
    String.ofList (cs.take 1) ++ (if rest.isEmpty then "" else "." ++ String.ofList rest)
      ++ (if e < 0 then "e-" else "e+") ++ padLeft l.exponentDigits (toString e.natAbs)

/-- A double as text; zero keeps its sign. -/
def text (l : NumberLayout) (x : Float) : String :=
  match Parts.ofFloat x with
  | .undefined => l.undefined
  | .infinite negative => (if negative then "-" else "") ++ l.infinite
  | .finite negative m q =>
    (if negative then "-" else "") ++ (if m = 0 then "0.0" else l.decimal (Shortest.digits m q))

end NumberLayout

end ReluMilp
