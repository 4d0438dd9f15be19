import ReluMilp.Number.Binary

/-!
# Scalars

Everything numeric in this library — networks, bounds, rows of a model — is written once, over a
type of scalars.

* `Scalar` — arithmetic, the comparisons that the library makes, and what an optimisation model
  does to a number that it stores;
* the instance of `Float` — doubles, where a comparison with an undefined number is false, the larger
  and the smaller of two entries are undefined if one of them is, and a model drops coefficients
  below `1e-13` and cuts right-hand sides at `1e100`;
* the instance of `Rat` — exact arithmetic, where every number is finite and a model keeps what it
  is given.
-/

namespace ReluMilp

/-- Numbers to compute with. -/
class Scalar (α : Type) extends Zero α, One α, Add α, Neg α, Sub α, Mul α where
  /-- Whether the first is smaller; false if one of them is undefined. -/
  less : α → α → Bool
  /-- The larger of two entries, undefined if one of them is. -/
  larger : α → α → α
  /-- The smaller of two entries, undefined if one of them is. -/
  smaller : α → α → α
  isFinite : α → Bool
  isUndefined : α → Bool
  /-- A coefficient that a model drops. -/
  negligible : α → Bool
  /-- A right-hand side as a model stores it. -/
  clip : α → α
  /-- The exact value of a finite number. -/
  toRat? : α → Option Rat
  /-- The number nearest to an exact value. -/
  ofRat : Rat → α

namespace Scalar

variable {α : Type} [Scalar α]

/-- The positive part as a constant: zero unless the number is known to be positive. -/
def positivePart (a : α) : α := if less 0 a then a else 0

/-- The rectifier on an entry: an undefined entry stays undefined. -/
def relu (a : α) : α := larger a 0

/-- Whether a number is zero, of either sign. -/
def isZero (a : α) : Bool := toRat? a = some 0

/-- The distance from zero. -/
def magnitude (a : α) : α := larger a (-a)

/-- The sum of the products of two lists, as long as the shorter one. -/
def dot (ws vs : List α) : α := (List.zipWith (· * ·) ws vs).sum

@[simp] theorem dot_nil_right (ws : List α) : dot ws [] = 0 := by
  cases ws <;> rfl

@[simp] theorem dot_cons_cons (w v : α) (ws vs : List α) :
    dot (w :: ws) (v :: vs) = w * v + dot ws vs := rfl

end Scalar

/-! ### Doubles -/

instance : Scalar Float where
  zero := 0
  one := 1
  add := Float.add
  neg := Float.neg
  sub := Float.sub
  mul := Float.mul
  less a b := a < b
  larger a b := if a.isNaN then a else if b.isNaN then b else if a < b then b else a
  smaller a b := if a.isNaN then a else if b.isNaN then b else if b < a then b else a
  isFinite a := a.isFinite
  isUndefined a := a.isNaN
  negligible a := a.abs < 1e-13
  clip a := if 1e100 ≤ a then 1 / 0 else if a ≤ -1e100 then -1 / 0 else a
  toRat? := toRat?
  ofRat := ofRat

/-! ### Exact numbers -/

instance : Scalar Rat where
  zero := 0
  one := 1
  less a b := a < b
  larger a b := if a ≤ b then b else a
  smaller a b := if a ≤ b then a else b
  isFinite _ := true
  isUndefined _ := false
  negligible a := a = 0
  clip a := a
  toRat? := some
  ofRat a := a

namespace Scalar

theorem positivePart_rat (a : Rat) : positivePart a = if 0 < a then a else 0 := by
  have h : (less (0 : Rat) a = true) = (0 < a) := by
    show (decide ((0 : Rat) < a) = true) = (0 < a)
    simp
  simp only [positivePart, h]

theorem larger_rat (a b : Rat) : larger a b = if a ≤ b then b else a := rfl

theorem smaller_rat (a b : Rat) : smaller a b = if a ≤ b then a else b := rfl

theorem relu_rat (a : Rat) : relu a = if a ≤ 0 then 0 else a := rfl

end Scalar

end ReluMilp
