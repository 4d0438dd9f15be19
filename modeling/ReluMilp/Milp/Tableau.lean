/-!
# Tableaux of bounded variables

Linear programs in exact arithmetic. Some variables, the heads, are written as sums over the other
ones, the columns. Every variable has a value and perhaps bounds, counted in a common unit so small
that the values of all columns and all bounds are whole numbers.

* `Line` — the sum of one head, with whole coefficients over one denominator;
* `Tableau.exchange` — a head that is brought to a value and a column exchanged;
* `Tableau.repair` — the values of all heads brought into their bounds, if that is possible;
* `Tableau.raise` — the value of one head made as large as possible;
* `Tableau.settle` — variables that cannot move any more taken out of the columns.

In the end the loops choose the variable with the least number among those that help, so that they
end; a bound on the number of steps keeps them total.
-/

namespace ReluMilp

/-- A head as a sum: coefficients of the columns, and its value, all over one denominator. -/
structure Line where
  den : Int
  coefs : Array Int
  sum : Int

namespace Line

/-- The coefficient of a column. -/
def coef (l : Line) (j : Nat) : Int := l.coefs.getD j 0

/-- The greatest common divisor of all numbers of a line. -/
def content (l : Line) : Nat :=
  l.coefs.foldl (fun g c => if g = 1 then 1 else Nat.gcd g c.natAbs) (Nat.gcd l.den.natAbs l.sum.natAbs)

/-- A line with a positive denominator and without a common divisor. -/
def reduce (l : Line) : Line :=
  let g : Int := if l.den < 0 then -l.content else l.content
  if g = 1 ∨ g = 0 then l else ⟨l.den / g, l.coefs.map (· / g), l.sum / g⟩

/-- The length of a denominator, in binary digits, from which on it is worth to look for common
divisors. -/
def long : Nat := 1000

/-- A line, reduced if its denominator is long. -/
def shorten (l : Line) : Line := if l.den.natAbs.log2 < long then l else l.reduce

/-- The variable of column `j` as a sum, once the head is written in its place; the head goes to the
value `target` and the variable comes from the value `before`. -/
def solveFor (l : Line) (j : Nat) (before target : Int) : Line :=
  let p := l.coef j
  let coefs := (Array.range l.coefs.size).map fun k => if k = j then l.den else -l.coef k
  reduce ⟨p, coefs, l.den * target - (l.sum - p * before)⟩

/-- Another line with column `j` replaced by the sum of its variable, which comes from the value
`before`. -/
def substitute (l : Line) (j : Nat) (before : Int) (source : Line) : Line :=
  let a := l.coef j
  if a = 0 then l
  else
    let g : Int := Nat.gcd a.natAbs source.den.natAbs
    let b := a / g
    let q := source.den / g
    let coefs := (Array.range l.coefs.size).map fun k =>
      let f := source.coef k
      if k = j then b * f
      else
        let c := l.coef k
        if f = 0 then (if c = 0 then 0 else q * c)
        else if c = 0 then b * f else q * c + b * f
    shorten ⟨l.den * q, coefs, q * (l.sum - a * before) + b * source.sum⟩

/-- A line after the variable of a column has moved. -/
def move (l : Line) (j : Nat) (delta : Int) : Line := { l with sum := l.sum + l.coef j * delta }

end Line

/-- A linear program: heads written over columns, the values of the columns, and bounds of all
variables. -/
structure Tableau where
  /-- How many units make one. -/
  units : Int
  /-- The variables of the columns. -/
  columns : Array Nat
  /-- The variables of the rows. -/
  heads : Array Nat
  /-- The sums, one per head. -/
  lines : Array Line
  /-- The values of variables that have no line. -/
  value : Array Int
  lower : Array (Option Int)
  upper : Array (Option Int)

namespace Tableau

/-- The line of row `i`. -/
def line (t : Tableau) (i : Nat) : Line := t.lines.getD i ⟨1, #[], 0⟩

/-- The variable of a column. -/
def column (t : Tableau) (j : Nat) : Nat := t.columns.getD j 0

/-- The variable of a row. -/
def head (t : Tableau) (i : Nat) : Nat := t.heads.getD i 0

/-- The lower bound of a variable. -/
def lowerOf (t : Tableau) (v : Nat) : Option Int := t.lower.getD v none

/-- The upper bound of a variable. -/
def upperOf (t : Tableau) (v : Nat) : Option Int := t.upper.getD v none

/-- The value of the variable of a column. -/
def columnValue (t : Tableau) (j : Nat) : Int := t.value.getD (t.column j) 0

/-- Whether the variable of a column may grow. -/
def mayGrow (t : Tableau) (j : Nat) : Bool :=
  match t.upperOf (t.column j) with
  | some u => t.columnValue j < u
  | none => true

/-- Whether the variable of a column may shrink. -/
def mayShrink (t : Tableau) (j : Nat) : Bool :=
  match t.lowerOf (t.column j) with
  | some l => l < t.columnValue j
  | none => true

/-- The row that a variable heads. -/
def rowOf? (t : Tableau) (v : Nat) : Option Nat := t.heads.findIdx? (· = v)

/-- The value of a variable, in ones. -/
def valueOf (t : Tableau) (v : Nat) : Rat :=
  match t.rowOf? v with
  | some i => mkRat (t.line i).sum ((t.line i).den * t.units).natAbs
  | none => mkRat (t.value.getD v 0) t.units.natAbs

/-- The variable of a column moved. -/
def shift (t : Tableau) (j : Nat) (delta : Int) : Tableau :=
  { t with
    value := t.value.modify (t.column j) (· + delta)
    lines := t.lines.map (·.move j delta) }

/-- The head of row `i`, brought to the value `target`, exchanged with the variable of column `j`. -/
def exchange (t : Tableau) (i j : Nat) (target : Int) : Tableau :=
  let before := t.columnValue j
  let source := (t.line i).solveFor j before target
  let lines := (Array.range t.lines.size).map fun r =>
    if r = i then source else (t.line r).substitute j before source
  { t with
    columns := t.columns.setIfInBounds j (t.head i)
    heads := t.heads.setIfInBounds i (t.column j)
    lines := lines
    value := t.value.setIfInBounds (t.head i) target }

/-- The least of the indexes below `n` that satisfy a test, measured by a key. -/
def leastBy (n : Nat) (key : Nat → Nat) (test : Nat → Bool) : Option Nat :=
  (Array.range n).foldl (fun best k =>
    if test k then
      match best with
      | some b => if key k < key b then some k else best
      | none => some k
    else best) none

/-! ### Feasible values -/

/-- The bound that a head violates, and whether it has to grow. -/
def violation (t : Tableau) (i : Nat) : Option (Int × Bool) :=
  let l := t.line i
  let v := t.head i
  match t.lowerOf v with
  | some b => if l.sum < b * l.den then some (b, true) else above l v
  | none => above l v
where
  /-- The upper bound, if the head lies above it. -/
  above (l : Line) (v : Nat) : Option (Int × Bool) :=
    match t.upperOf v with
    | some b => if b * l.den < l.sum then some (b, false) else none
    | none => none

/-- How far a head lies outside its bounds, measured by the largest coefficient of its line, as a
quotient. -/
def excess (t : Tableau) (i : Nat) : Option (Nat × Nat) :=
  (t.violation i).map fun (b, _) =>
    let l := t.line i
    ((b * l.den - l.sum).natAbs, l.coefs.foldl (fun m c => max m c.natAbs) 1)

/-- The row whose head lies farthest outside its bounds. -/
def farthest (t : Tableau) : Option Nat :=
  ((Array.range t.heads.size).foldl (fun (best : Option (Nat × Nat × Nat)) i =>
    match t.excess i, best with
    | none, _ => best
    | some (a, b), none => some (i, a, b)
    | some (a, b), some (_, c, d) => if c * b < a * d then some (i, a, b) else best) none).map (·.1)

/-- Whether a column can move a head in a direction. -/
def helps (t : Tableau) (i : Nat) (grow : Bool) (j : Nat) : Bool :=
  let c := (t.line i).coef j
  if c = 0 then false
  else if decide (0 < c) = grow then t.mayGrow j
  else t.mayShrink j

/-- Of the columns that pass a test, the one that costs the goal least per unit of a head; of several
ones the least. -/
def cheapest (t : Tableau) (goal i : Nat) (test : Nat → Bool) : Option Nat :=
  let g := t.line goal
  let l := t.line i
  (Array.range t.columns.size).foldl (fun best j =>
    if test j then
      match best with
      | none => some j
      | some k =>
        let a := (g.coef j).natAbs * (l.coef k).natAbs
        let b := (g.coef k).natAbs * (l.coef j).natAbs
        if a < b || (a = b && t.column j < t.column k) then some j else best
    else best) none

/-- Columns are moved until every head lies in its bounds; `none` if a head cannot. While more than
`careful` steps are left, columns are chosen by what they cost the goal, which keeps a largest
goal a largest one. From there on it only falls, so that the loop ends as well where the tableau is
hopeless. -/
def repair (goal careful : Nat) (hopeless : Tableau → Bool) : Nat → Tableau → Option Tableau
  | 0, _ => none
  | fuel + 1, t =>
    let early := decide (careful < fuel)
    let leaving := if early then t.farthest
      else leastBy t.heads.size t.head fun i => (t.violation i).isSome
    match leaving with
    | none => some t
    | some i =>
      match t.violation i with
      | none => some t
      | some (target, grow) =>
        if early && hopeless t then none else
        let entering := if early then t.cheapest goal i (t.helps i grow)
          else leastBy t.columns.size t.column (t.helps i grow)
        match entering with
        | none => none
        | some j => repair goal careful hopeless fuel (t.exchange i j target)

/-! ### Largest values -/

/-- How a maximisation ends. -/
inductive Raised where
  | largest (t : Tableau)
  | endless
  | unfinished

/-- What stops the variable of a column: a distance as a quotient, and the row whose head meets a
bound there; no row if it is its own bound. -/
structure Stop where
  num : Int
  den : Int
  row : Option (Nat × Int)

/-- What stops the variable of a column first in a direction. -/
def firstStop (t : Tableau) (j : Nat) (up : Bool) : Option Stop :=
  let v := t.column j
  let a := t.columnValue j
  let own : Option Stop :=
    if up then (t.upperOf v).map fun u => ⟨u - a, 1, none⟩
    else (t.lowerOf v).map fun l => ⟨a - l, 1, none⟩
  (Array.range t.heads.size).foldl (fun best i =>
    let l := t.line i
    let c := l.coef j
    if c = 0 then best else
      let w := t.head i
      let bound := if decide (0 < c) = up then t.upperOf w else t.lowerOf w
      match bound with
      | none => best
      | some b =>
        let s : Stop := ⟨(b * l.den - l.sum).natAbs, c.natAbs, some (i, b)⟩
        match best with
        | none => some s
        | some r =>
          let x := s.num * r.den
          let y := r.num * s.den
          if x < y then some s
          else if x = y then
            match r.row with
            | some (k, _) => if w < t.head k then some s else best
            | none => best
          else best) own

/-- Columns are moved as long as the head of row `o` grows. -/
def raise (o : Nat) : Nat → Tableau → Raised
  | 0, _ => .unfinished
  | fuel + 1, t =>
    match leastBy t.columns.size t.column (t.helps o true) with
    | none => .largest t
    | some j =>
      let up := decide (0 < (t.line o).coef j)
      match t.firstStop j up with
      | none => .endless
      | some ⟨num, _, none⟩ => raise o fuel (t.shift j (if up then num else -num))
      | some ⟨_, _, some (i, b)⟩ => raise o fuel (t.exchange i j b)

/-! ### Changing bounds -/

/-- The only value of a variable. -/
def only? (t : Tableau) (v : Nat) : Option Int :=
  match t.lowerOf v, t.upperOf v with
  | some l, some u => if l = u then some l else none
  | _, _ => none

/-- Columns of variables with one value left out. -/
def dropFixed (t : Tableau) : Tableau :=
  let kept := (Array.range t.columns.size).filter fun j => (t.only? (t.column j)).isNone
  if kept.size = t.columns.size then t else
    { t with
      columns := kept.map t.column
      lines := t.lines.map fun l => { l with coefs := kept.map l.coef } }

/-- Variables with one value left out of the columns, those that are heads after they were exchanged
with the column that costs the goal least. -/
def settle (goal : Nat) : Nat → Tableau → Tableau
  | 0, t => t.dropFixed
  | fuel + 1, t =>
    let t := t.dropFixed
    let movable (i : Nat) : Bool := (t.only? (t.head i)).isSome && (t.line i).coefs.any (· ≠ 0)
    match leastBy t.heads.size t.head movable with
    | none => t
    | some i =>
      match t.only? (t.head i), t.cheapest goal i fun j => (t.line i).coef j ≠ 0 with
      | some target, some j => settle goal fuel (t.exchange i j target)
      | _, _ => t

/-- Other bounds for a variable; if it has a column, its value is moved into them. -/
def restrict (t : Tableau) (v : Nat) (lower upper : Option Int) : Tableau :=
  let t := { t with lower := t.lower.setIfInBounds v lower, upper := t.upper.setIfInBounds v upper }
  match t.columns.findIdx? (· = v) with
  | none => t
  | some j =>
    let a := t.columnValue j
    let inside := match upper with
      | some u => min a u
      | none => a
    let inside := match lower with
      | some l => max inside l
      | none => inside
    if inside = a then t else t.shift j (inside - a)

end Tableau

end ReluMilp
