/-!
# Binary formats

A finite value of a binary format is `m · 2^q` with a bounded whole number `m`.

* `roundDiv` — a quotient of natural numbers rounded to the nearest whole number, ties to even;
* `BinaryFormat.nearest` — the value of a format nearest to a quotient, ties to even;
* `Parts` — sign, significand and exponent of a double, read from and written to its bits;
* `toRat?`, `ofRat` — the exact rational value of a double and the double nearest to a rational.
-/

namespace ReluMilp

/-- The whole number nearest to `a / b`; a tie goes to the even one. -/
def roundDiv (a b : Nat) : Nat :=
  let low := a / b
  let rest := a % b
  if 2 * rest < b then low
  else if b < 2 * rest then low + 1
  else if low % 2 = 0 then low else low + 1

/-! ### Formats -/

/-- A binary format: the number of bits of a significand, and the exponents of the last place of
its smallest and of its largest values. -/
structure BinaryFormat where
  precision : Nat
  least : Int
  greatest : Int

namespace BinaryFormat

/-- Eleven bits, the largest value is 65504. -/
def half : BinaryFormat := ⟨11, -24, 5⟩

/-- Eight bits, over the range of single precision. -/
def brief : BinaryFormat := ⟨8, -133, 120⟩

/-- Twenty-four bits. -/
def single : BinaryFormat := ⟨24, -149, 104⟩

/-- Fifty-three bits. -/
def double : BinaryFormat := ⟨53, -1074, 971⟩

/-- The value nearest to `num / den` as significand and exponent; `none` beyond the largest value.
Values below the smallest normal one keep the least exponent. -/
def nearest (f : BinaryFormat) (num den : Nat) : Option (Nat × Int) :=
  if num = 0 then some (0, f.least)
  else
    let guess : Int := (num.log2 : Int) - den.log2 - f.precision
    let scaled (q : Int) : Nat × Nat :=
      if 0 ≤ q then (num, den * Nat.pow 2 q.toNat) else (num * Nat.pow 2 (-q).toNat, den)
    let fits (q : Int) : Bool := let (a, b) := scaled q; a < Nat.pow 2 f.precision * b
    let q := if fits guess then guess else guess + 1
    let q := if q < f.least then f.least else q
    let (a, b) := scaled q
    let m := roundDiv a b
    let (m, q) :=
      if m = Nat.pow 2 f.precision then (Nat.pow 2 (f.precision - 1), q + 1) else (m, q)
    if f.greatest < q then none else some (m, q)

end BinaryFormat

/-! ### Doubles -/

/-- What a double holds: a signed finite value `m · 2^q`, a signed infinity, or no number. -/
inductive Parts where
  | finite (negative : Bool) (m : Nat) (q : Int)
  | infinite (negative : Bool)
  | undefined
  deriving Repr, DecidableEq

namespace Parts

/-- Read from the bits: one of sign, eleven of exponent, fifty-two of fraction. -/
def ofFloat (x : Float) : Parts :=
  let bits := x.toBits.toNat
  let negative := decide (Nat.pow 2 63 ≤ bits)
  let exponent : Nat := bits / Nat.pow 2 52 % Nat.pow 2 11
  let fraction : Nat := bits % Nat.pow 2 52
  if exponent = 2047 then (if fraction = 0 then infinite negative else undefined)
  else if exponent = 0 then finite negative fraction (-1074)
  else finite negative (Nat.pow 2 52 + fraction) ((exponent : Int) - 1075)

/-- Written to bits; significand and exponent are those of a value of the format. -/
def toFloat : Parts → Float
  | finite negative m q =>
    let hidden := Nat.pow 2 52
    let magnitude := if m < hidden then m else (q + 1075).toNat * hidden + (m - hidden)
    Float.ofBits (UInt64.ofNat ((if negative then Nat.pow 2 63 else 0) + magnitude))
  | infinite negative =>
    Float.ofBits (UInt64.ofNat ((if negative then Nat.pow 2 63 else 0) + 2047 * Nat.pow 2 52))
  | undefined => Float.ofBits (UInt64.ofNat (2047 * Nat.pow 2 52 + Nat.pow 2 51))

/-- The double nearest to a signed quotient, an infinity beyond the largest one. -/
def ofQuotient (negative : Bool) (num den : Nat) : Parts :=
  match BinaryFormat.double.nearest num den with
  | some (m, q) => finite negative m q
  | none => infinite negative

end Parts

/-- The exact value of a finite double. -/
def toRat? (x : Float) : Option Rat :=
  match Parts.ofFloat x with
  | .finite negative m q =>
    let n : Int := if negative then -(m : Int) else m
    some (if 0 ≤ q then ((n * (Nat.pow 2 q.toNat : Nat) : Int) : Rat) else mkRat n (Nat.pow 2 (-q).toNat))
  | _ => none

/-- The double nearest to a rational, ties to even. -/
def ofRat (r : Rat) : Float :=
  (Parts.ofQuotient (decide (r.num < 0)) r.num.natAbs r.den).toFloat

namespace BinaryFormat

/-- A double stored in a narrower format and read back: rounded to the nearest value, ties to
even, to an infinity beyond the largest value; infinities and undefined values stay. -/
def store (f : BinaryFormat) (x : Float) : Float :=
  match Parts.ofFloat x with
  | .finite negative m q =>
    let (num, den) : Nat × Nat :=
      if 0 ≤ q then (m * Nat.pow 2 q.toNat, 1) else (m, Nat.pow 2 (-q).toNat)
    match f.nearest num den with
    | none => (Parts.infinite negative).toFloat
    | some (m, q) =>
      let (num, den) : Nat × Nat :=
        if 0 ≤ q then (m * Nat.pow 2 q.toNat, 1) else (m, Nat.pow 2 (-q).toNat)
      (Parts.ofQuotient negative num den).toFloat
  | _ => x

end BinaryFormat

end ReluMilp
