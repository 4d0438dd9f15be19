import ReluMilp.Milp.Tableau
import ReluMilp.Milp.Workspace

/-!
# Programs

Small models in exact numbers.

* `Span` — bounds of a value;
* `Program` — a model whose variables stand at consecutive positions, with exact numbers. Rows of a
  single variable become bounds, rows of whole variables are rounded to whole values, and so is what
  a row says about its whole variables alone;
* `Program.ofModel` — the program of a model, within a slack;
* `Program.tableau` — the tableau of a program, without regard to whole variables.
-/

namespace ReluMilp

/-- Bounds of a value; a missing one is infinite. -/
structure Span where
  lower : Option Rat
  upper : Option Rat

namespace Span

/-- The values that lie in two spans. -/
def meet (s t : Span) : Span :=
  let larger : Option Rat → Option Rat → Option Rat
    | some a, some b => some (if a ≤ b then b else a)
    | some a, none => some a
    | none, b => b
  let smaller : Option Rat → Option Rat → Option Rat
    | some a, some b => some (if a ≤ b then a else b)
    | some a, none => some a
    | none, b => b
  ⟨larger s.lower t.lower, smaller s.upper t.upper⟩

/-- Whether no value lies in a span. -/
def isEmpty (s : Span) : Bool :=
  match s.lower, s.upper with
  | some l, some u => u < l
  | _, _ => false

/-- A span with both ends moved outward. -/
def widen (amount : Rat) (s : Span) : Span :=
  ⟨s.lower.map (· - amount), s.upper.map (· + amount)⟩

/-- The sums of a value of each of two spans. -/
def plus (s t : Span) : Span :=
  let sum (a b : Option Rat) : Option Rat := do return (← a) + (← b)
  ⟨sum s.lower t.lower, sum s.upper t.upper⟩

/-- The multiples of the values of a span. -/
def times (c : Rat) (s : Span) : Span :=
  if c = 0 then ⟨some 0, some 0⟩
  else if 0 < c then ⟨s.lower.map (c * ·), s.upper.map (c * ·)⟩
  else ⟨s.upper.map (c * ·), s.lower.map (c * ·)⟩

/-- Whether every value of a span lies in another one. -/
def within (s t : Span) : Bool :=
  (t.lower.all fun b => s.lower.any (b ≤ ·)) && (t.upper.all fun b => s.upper.any (· ≤ b))

/-- The whole values of a span, with ends that are whole. -/
def whole (s : Span) : Span :=
  ⟨s.lower.map fun l => (l.ceil : Rat), s.upper.map fun u => (u.floor : Rat)⟩

/-- A span whose ends cross by no more than an amount as the values between them; of these the ones
that lie in the own span of the variable, if there are any. -/
def uncrossed (amount : Rat) (own s : Span) : Span :=
  match s.lower, s.upper with
  | some l, some u =>
    if u < l ∧ l ≤ u + amount then
      let between : Span := ⟨some u, some l⟩
      if (between.meet own).isEmpty then between else between.meet own
    else s
  | _, _ => s

end Span

/-- A model in exact numbers: a span per variable, rows as coefficients of positions with a span,
the positions of whole variables, and an objective to be made as large as possible. -/
structure Program where
  spans : Array Span
  rows : List (List (Nat × Rat) × Span)
  whole : List Nat
  goal : List (Nat × Rat)

namespace Program

variable {α : Type} [Scalar α]

/-- A number of a model, with the infinite ones told apart. -/
def exactLimit (a : α) : Limit Rat :=
  match Scalar.toRat? a with
  | some r => .ofLarge r
  | none => if Scalar.less a 0 then .negInf else .posInf

/-- A number of a model as a bound below; `none` if nothing lies above it. -/
def below (a : α) : Option (Option Rat) :=
  match exactLimit a with
  | .negInf => some none
  | .finite r => some (some r)
  | .posInf => none

/-- A number of a model as a bound above; `none` if nothing lies below it. -/
def above (a : α) : Option (Option Rat) :=
  match exactLimit a with
  | .negInf => none
  | .finite r => some (some r)
  | .posInf => some none

/-- The values that a sense allows; `none` if there are none. -/
def spanOf (sense : Sense) (rhs : α) : Option Span :=
  match sense with
  | .le => (above rhs).map fun u => ⟨none, u⟩
  | .ge => (below rhs).map fun l => ⟨l, none⟩
  | .eq =>
    match exactLimit rhs with
    | .finite r => some ⟨some r, some r⟩
    | _ => none

/-- The values between two limits; `none` if there are none. -/
def spanBetween (lower upper : Limit α) : Option Span := do
  let l ← match lower with
    | .negInf => some none
    | .finite a => below a
    | .posInf => none
  let u ← match upper with
    | .negInf => none
    | .finite a => above a
    | .posInf => some none
  return ⟨l, u⟩

/-- Terms as coefficients of positions. -/
def exactTerms (ids : Array VarId) (ts : List (Term α)) : List (Nat × Rat) :=
  ts.filterMap fun t => do
    let k ← ids.findIdx? (· = t.var)
    return (k, (Scalar.toRat? t.coefficient).getD 0)

/-- A span of a multiple of a value as a span of the value. -/
def divide (s : Span) (c : Rat) : Span :=
  if 0 < c then ⟨s.lower.map (· / c), s.upper.map (· / c)⟩
  else ⟨s.upper.map (· / c), s.lower.map (· / c)⟩

/-- A row with a single variable as a bound of it. -/
def absorb (spans : Array Span) : List (List (Nat × Rat) × Span) →
    Array Span × List (List (Nat × Rat) × Span)
  | [] => (spans, [])
  | ([(k, c)], s) :: rest =>
    if c = 0 then
      let (spans, rows) := absorb spans rest
      (spans, ([(k, c)], s) :: rows)
    else absorb (spans.modify k (·.meet (divide s c))) rest
  | r :: rest =>
    let (spans, rows) := absorb spans rest
    (spans, r :: rows)

/-- A bound in units. -/
def inUnits (units : Nat) (r : Rat) : Int := r.num * ((units / r.den : Nat) : Int)

/-- The least common multiple of the denominators of numbers. -/
def commonDen (rs : List Rat) : Nat := rs.foldl (fun n r => Nat.lcm n r.den) 1

/-- A row over whole variables: whole coefficients without a common divisor, and the whole values of
the span. -/
def primitive (row : List (Nat × Rat) × Span) : List (Nat × Rat) × Span :=
  let (ts, s) := row
  let den := commonDen (ts.map (·.2))
  let content : Nat := ts.foldl (fun g (_, c) => Nat.gcd g (inUnits den c).natAbs) 0
  if content = 0 then row
  else
    let ratio : Rat := (den : Rat) / content
    (ts.map fun (k, c) => (k, c * ratio),
      Span.whole ⟨s.lower.map (· * ratio), s.upper.map (· * ratio)⟩)

/-- The values of terms over variables with spans. -/
def reach (spans : Array Span) (ts : List (Nat × Rat)) : Span :=
  ts.foldl (fun s (k, c) => s.plus ((spans.getD k ⟨none, none⟩).times c)) ⟨some 0, some 0⟩

/-- What a row says about its whole variables alone, unless their spans say as much. -/
def wholePart (spans : Array Span) (whole : List Nat) (row : List (Nat × Rat) × Span) :
    Option (List (Nat × Rat) × Span) :=
  let (ts, others) := row.1.partition fun (k, _) => whole.contains k
  if ts.isEmpty || others.isEmpty then none
  else
    let part := primitive (ts, row.2.plus ((reach spans others).times (-1)))
    if (reach spans part.1).within part.2 then none else some part

/-- How much bounds may cross, and how far a whole value may lie beyond a bound, in a program with a
slack. -/
def tolerance : Rat := 1 / 1000000

/-- The program of a model with a slack for its rows; `none` if a bound excludes every value. -/
def ofModel (m : Model α) (slack : Rat) : Option Program := do
  let ids := (m.vars.map (·.id)).toArray
  let spans ← m.vars.mapM fun v => spanBetween v.lower v.upper
  let rows ← m.rows.mapM fun r => do
    let s ← spanOf r.sense r.rhs
    return (exactTerms ids r.terms, s)
  let own := spans.toArray
  let (spans, rows) := absorb own rows
  let rows := rows.map fun (ts, s) => (ts, s.widen slack)
  let tolerance := if slack = 0 then 0 else tolerance
  let whole := (m.vars.zipIdx.filter fun (v, _) => v.kind ≠ .continuous).map (·.2)
  let spans := whole.foldl (fun spans k => spans.modify k fun s => (s.widen tolerance).whole) spans
  let spans := own.zipWith (Span.uncrossed tolerance) spans
  let rows := rows.map fun r => if r.1.all fun (k, _) => whole.contains k then primitive r else r
  let (spans, parts) := absorb spans (rows.filterMap (wholePart spans whole))
  let rows := rows ++ parts
  let goal := exactTerms ids m.objective.expression.terms
  let goal := if m.objective.maximize then goal else goal.map fun (k, c) => (k, -c)
  return ⟨spans, rows, whole, goal⟩

/-! ### The linear program -/

/-- A value between bounds, one of them if there is one. -/
def start (lower upper : Option Int) : Int :=
  match lower, upper with
  | some l, _ => l
  | none, some u => u
  | none, none => 0

/-- The line of terms over `n` columns with values. -/
def lineOf (n : Nat) (values : Array Int) (ts : List (Nat × Rat)) : Line :=
  let den := commonDen (ts.map (·.2))
  let coefs := ts.foldl (fun row (k, c) => row.modify k (· + inUnits den c))
    (Array.replicate n (0 : Int))
  let sum := (Array.range n).foldl (fun sum k => sum + coefs.getD k 0 * values.getD k 0) 0
  Line.reduce ⟨den, coefs, sum⟩

/-- The tableau of a program; the last row is the objective. -/
def tableau (p : Program) : Tableau :=
  let n := p.spans.size
  let rows := p.rows.toArray.push (p.goal, ⟨none, none⟩)
  let spans := p.spans ++ rows.map (·.2)
  let ends := spans.toList.flatMap fun s => s.lower.toList ++ s.upper.toList
  let units := commonDen ends
  let lower := spans.map fun s => s.lower.map (inUnits units)
  let upper := spans.map fun s => s.upper.map (inUnits units)
  let values := (Array.range n).map fun k => start (lower.getD k none) (upper.getD k none)
  { units := units
    columns := Array.range n
    heads := (Array.range rows.size).map (n + ·)
    lines := rows.map fun (ts, _) => lineOf n values ts
    value := values ++ Array.replicate rows.size 0
    lower := lower
    upper := upper }

end Program

end ReluMilp
