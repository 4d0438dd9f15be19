import ReluMilp.Number.Binary

/-!
# Shortest decimal digits

The decimal with the fewest digits that reads back as a given binary value; of two such decimals
with as many digits the nearer one, and of two equally near ones the even one.

* `RoundingInterval` — the decimals that round to a binary value;
* `Shortest.digits` — the first of the grids of 1, 2, …, 17 digits that meets the interval.
-/

namespace ReluMilp

/-- The numbers that round to `m · 2^q`, as `low / den` to `high / den`, and the value itself as
`value / den`. Both ends belong to it when `m` is even. -/
structure RoundingInterval where
  low : Nat
  value : Nat
  high : Nat
  den : Nat
  closed : Bool

namespace RoundingInterval

/-- The interval of a double; below a power of two the neighbour is half as far away. -/
def ofParts (m : Nat) (q : Int) : RoundingInterval :=
  let narrow := decide (m = Nat.pow 2 52 ∧ -1074 < q)
  let up := if 2 ≤ q then Nat.pow 2 (q - 2).toNat else 1
  let den := if 2 ≤ q then 1 else Nat.pow 2 (2 - q).toNat
  { low := (4 * m - if narrow then 1 else 2) * up
    value := 4 * m * up
    high := (4 * m + 2) * up
    den := den
    closed := m % 2 = 0 }

/-- Whether `a / b` rounds to the value. -/
def contains (i : RoundingInterval) (a b : Nat) : Bool :=
  let left := i.low * b
  let mid := a * i.den
  let right := i.high * b
  if i.closed then decide (left ≤ mid ∧ mid ≤ right) else decide (left < mid ∧ mid < right)

end RoundingInterval

/-- A decimal `digits · 10^exponent`. -/
structure Decimal where
  digits : Nat
  exponent : Int
  deriving Repr, DecidableEq

namespace Decimal

/-- Numerator and denominator. -/
def quotient (d : Decimal) : Nat × Nat :=
  if 0 ≤ d.exponent then (d.digits * Nat.pow 10 d.exponent.toNat, 1)
  else (d.digits, Nat.pow 10 (-d.exponent).toNat)

/-- Trailing zeros moved into the exponent; at most `fuel` of them. -/
def strip : Nat → Decimal → Decimal
  | 0, d => d
  | fuel + 1, d =>
    if d.digits ≠ 0 ∧ d.digits % 10 = 0 then strip fuel ⟨d.digits / 10, d.exponent + 1⟩ else d

end Decimal

namespace Shortest

/-- The exponent `e` with `10^e ≤ num / den < 10^(e+1)`, for a positive quotient. -/
def magnitude (num den : Nat) : Int :=
  let reaches (e : Int) : Bool :=
    if 0 ≤ e then decide (den * Nat.pow 10 e.toNat ≤ num)
    else decide (den ≤ num * Nat.pow 10 (-e).toNat)
  let guess : Int := ((num.log2 : Int) - den.log2) * 30103 / 100000 - 1
  if reaches (guess + 2) then guess + 2
  else if reaches (guess + 1) then guess + 1
  else if reaches guess then guess else guess - 1

/-- The better of the two neighbours of the value on the grid of multiples of `10^k`, if one of
them lies in the interval. -/
def onGrid? (i : RoundingInterval) (k : Int) : Option Decimal :=
  let (num, den) : Nat × Nat :=
    if 0 ≤ k then (i.value, i.den * Nat.pow 10 k.toNat)
    else (i.value * Nat.pow 10 (-k).toNat, i.den)
  let low : Decimal := ⟨num / den, k⟩
  let high : Decimal := ⟨num / den + 1, k⟩
  let hit (d : Decimal) : Bool := let (a, b) := d.quotient; i.contains a b
  let nearer : Decimal := ⟨roundDiv num den, k⟩
  if hit low && hit high then some nearer
  else if hit low then some low
  else if hit high then some high
  else none

/-- The digits of a positive double `m · 2^q`. -/
def digits (m : Nat) (q : Int) : Decimal :=
  let i := RoundingInterval.ofParts m q
  let e := magnitude i.value i.den
  let found := (List.range 17).findSome? fun (n : Nat) => onGrid? i (e - n)
  match found with
  | some d => d.strip 20
  | none =>
    let rounded := roundDiv (i.value * Nat.pow 10 (16 - e).toNat) (i.den * Nat.pow 10 (e - 16).toNat)
    (Decimal.mk rounded (e - 16)).strip 20

end Shortest

end ReluMilp
