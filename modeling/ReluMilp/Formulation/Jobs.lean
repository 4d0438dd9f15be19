import ReluMilp.Value

/-!
# Jobs

Where the optimisation problems of a layer are solved: one job works on the model itself, any other
number of jobs on copies of it. Zero is no number of jobs, which shows when there is something to
solve.
-/

namespace ReluMilp

/-- Where problems are solved. -/
inductive Jobs where
  | inPlace
  | onCopies
  /-- No number of jobs. -/
  | none (fault : Fault)
  deriving Repr, DecidableEq

namespace Jobs

/-- The jobs that a value asks for; nothing asks for a single one that works on copies. -/
def ofValue (v : Value) : Jobs :=
  if v.whole? = some 1 then inPlace
  else match v with
    | .null => onCopies
    | v =>
      match v.truncated with
      | .error f => none f
      | .ok n => if n = 0 then none .wrongValue else onCopies

end Jobs

end ReluMilp
