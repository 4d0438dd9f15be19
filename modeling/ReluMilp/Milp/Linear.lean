import ReluMilp.Scalar

/-!
# Linear expressions

* `Term`, `Linear` — a coefficient of a variable; a sum of terms and a constant;
* `Linear.value` — the value under an assignment;
* `collect` — the terms in the order of the variables, one per variable.

Variables are numbered in the order of their creation, so that this is also their order in a
model.
-/

namespace ReluMilp

/-- The number of a variable. -/
abbrev VarId := Nat

/-- The values of all variables. -/
abbrev Assignment (α : Type) := VarId → α

/-- A coefficient of a variable. -/
structure Term (α : Type) where
  coefficient : α
  var : VarId
  deriving Repr, DecidableEq

/-- A linear expression. -/
structure Linear (α : Type) where
  terms : List (Term α)
  constant : α
  deriving Repr, DecidableEq

variable {α : Type} [Scalar α]

/-- The value of a sum of terms. -/
def termsValue (x : Assignment α) (ts : List (Term α)) : α :=
  (ts.map fun t => t.coefficient * x t.var).sum

@[simp] theorem termsValue_nil (x : Assignment α) : termsValue x [] = 0 := rfl

@[simp] theorem termsValue_cons (x : Assignment α) (t : Term α) (ts : List (Term α)) :
    termsValue x (t :: ts) = t.coefficient * x t.var + termsValue x ts := rfl

/-- The value of an expression. -/
def Linear.value (e : Linear α) (x : Assignment α) : α := termsValue x e.terms + e.constant

/-- A term among terms in order; the coefficients of one variable are added. -/
def insertTerm (t : Term α) : List (Term α) → List (Term α)
  | [] => [t]
  | u :: us =>
    if t.var = u.var then ⟨u.coefficient + t.coefficient, u.var⟩ :: us
    else if t.var < u.var then t :: u :: us
    else u :: insertTerm t us

/-- Terms in the order of their variables, one per variable. -/
def collect (ts : List (Term α)) : List (Term α) := ts.foldl (fun us t => insertTerm t us) []

/-- Whether all coefficients are finite. -/
def finiteTerms (ts : List (Term α)) : Bool := ts.all fun t => Scalar.isFinite t.coefficient

/-- The terms of weights on variables, as many as the shorter list has. -/
def weightTerms (ws : List α) (vars : List VarId) : List (Term α) := List.zipWith Term.mk ws vars

end ReluMilp
