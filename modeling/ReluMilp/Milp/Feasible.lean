import ReluMilp.Milp.Model

/-!
# Feasible assignments

What the variables and rows of a model mean in exact arithmetic.

* `Variable.Admits` — a value lies in the bounds and suits the kind of the variable, or is the zero that the
  kind allows at any rate;
* `Variable.Gapped`, `Model.Gapped` — zero is allowed outside the bounds;
* `Row.Holds` — the two sides of a row compare as it says;
* `Model.Feasible` — every variable admits its value and every row holds;
* `Objective.value` — what is optimised.
-/

namespace ReluMilp

namespace Limit

/-- A value does not lie below a lower bound. -/
def AtMost : Limit Rat → Rat → Prop
  | negInf, _ => True
  | finite l, a => l ≤ a
  | posInf, _ => False

/-- A value does not lie above an upper bound. -/
def AtLeast : Limit Rat → Rat → Prop
  | negInf, _ => False
  | finite u, a => a ≤ u
  | posInf, _ => True

instance (l : Limit Rat) (a : Rat) : Decidable (l.AtMost a) := by
  cases l <;> unfold AtMost <;> infer_instance

instance (u : Limit Rat) (a : Rat) : Decidable (u.AtLeast a) := by
  cases u <;> unfold AtLeast <;> infer_instance

end Limit

/-- A value between the bounds suits a kind of variables. -/
def VarKind.Suits : VarKind → Rat → Prop
  | continuous, _ => True
  | binary, a => a = 0 ∨ a = 1
  | integer, a => a.den = 1
  | semicontinuous, _ => True
  | semiinteger, a => a.den = 1

instance (k : VarKind) (a : Rat) : Decidable (k.Suits a) := by
  cases k <;> unfold VarKind.Suits <;> infer_instance

/-- A variable takes a value: one between its bounds that suits its kind, or zero if its kind may vanish. -/
def Variable.Admits (v : Variable Rat) (a : Rat) : Prop :=
  (v.kind.mayVanish = true ∧ a = 0) ∨ v.lower.AtMost a ∧ v.upper.AtLeast a ∧ v.kind.Suits a

instance (v : Variable Rat) (a : Rat) : Decidable (v.Admits a) :=
  inferInstanceAs (Decidable (_ ∨ _))

/-- A variable of a kind that does not vanish takes the values between its bounds that suit the kind. -/
theorem Variable.admits_iff {v : Variable Rat} (h : v.kind.mayVanish = false) (a : Rat) :
    v.Admits a ↔ v.lower.AtMost a ∧ v.upper.AtLeast a ∧ v.kind.Suits a := by
  simp [Variable.Admits, h]

/-- A variable may be zero though zero lies outside its bounds. -/
def Variable.Gapped (v : Variable Rat) : Prop :=
  v.kind.mayVanish = true ∧ ¬(v.lower.AtMost 0 ∧ v.upper.AtLeast 0)

instance (v : Variable Rat) : Decidable v.Gapped := inferInstanceAs (Decidable (_ ∧ _))

/-- Two sides compare as a sense says. -/
def Sense.Compares : Sense → Rat → Rat → Prop
  | le, a, b => a ≤ b
  | ge, a, b => b ≤ a
  | eq, a, b => a = b

instance (s : Sense) (a b : Rat) : Decidable (s.Compares a b) := by
  cases s <;> unfold Sense.Compares <;> infer_instance

/-- A row holds under an assignment. -/
def Row.Holds (r : Row Rat) (x : Assignment Rat) : Prop := r.sense.Compares (termsValue x r.terms) r.rhs

instance (r : Row Rat) (x : Assignment Rat) : Decidable (r.Holds x) :=
  inferInstanceAs (Decidable (Sense.Compares _ _ _))

/-- An assignment satisfies a model. -/
def Model.Feasible (m : Model Rat) (x : Assignment Rat) : Prop :=
  (∀ v ∈ m.vars, v.Admits (x v.id)) ∧ ∀ r ∈ m.rows, r.Holds x

instance (m : Model Rat) (x : Assignment Rat) : Decidable (m.Feasible x) :=
  inferInstanceAs (Decidable (_ ∧ _))

/-- Some variable of a model may be zero though zero lies outside its bounds. -/
def Model.Gapped (m : Model Rat) : Prop := ∃ v ∈ m.vars, v.Gapped

instance (m : Model Rat) : Decidable m.Gapped := inferInstanceAs (Decidable (∃ v ∈ m.vars, _))

/-- The value of an objective under an assignment. -/
def Objective.value (o : Objective Rat) (x : Assignment Rat) : Rat := o.expression.value x

/-- One value is at least as good as another. -/
def Objective.AtLeastAsGood (o : Objective Rat) (a b : Rat) : Prop := if o.maximize then b ≤ a else a ≤ b

end ReluMilp
