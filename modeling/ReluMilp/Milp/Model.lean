import ReluMilp.Milp.Linear
import ReluMilp.Milp.Parameters

/-!
# Optimisation models

A container of variables, linear rows and an objective, in the order of their creation.

* `Limit`, `Variable`, `Row`, `Objective`, `Model` — the container;
* `Model.addVars`, `Model.addVar`, `Model.addRows` — additions, all of them or none: a name may have
  255 bytes, a coefficient has to be finite, and a right-hand side and a bound have to be numbers;
* `Model.removeVars`, `Model.removeRows` — removals, which take a variable out of every row and out of
  the objective;
* `Model.setObjective`, `Model.setKinds`, `Model.setSide`, `Model.setBounds` — changes.

Numbers of variables and rows are never used twice. A variable or a row without a name is named
after its number.
-/

namespace ReluMilp

/-- The number of a row. -/
abbrev RowId := Nat

/-- A bound of a variable. -/
inductive Limit (α : Type) where
  | negInf
  | finite (a : α)
  | posInf
  deriving Repr, DecidableEq

/-- What values a variable takes. A semi-continuous or semi-integer one may be zero also where zero lies
outside its bounds. -/
inductive VarKind where
  | continuous
  | binary
  | integer
  | semicontinuous
  | semiinteger
  deriving Repr, DecidableEq

/-- The published letter of a kind of variables. -/
def VarKind.letter : VarKind → String
  | continuous => "C"
  | binary => "B"
  | integer => "I"
  | semicontinuous => "S"
  | semiinteger => "N"

/-- The kind with a published letter. -/
def VarKind.ofLetter? (s : String) : Option VarKind :=
  [continuous, binary, integer, semicontinuous, semiinteger].find? (·.letter = s)

/-- Whether variables of a kind may be zero whatever their bounds are. -/
def VarKind.mayVanish : VarKind → Bool
  | semicontinuous => true
  | semiinteger => true
  | _ => false

/-- A variable with its bounds. -/
structure Variable (α : Type) where
  id : VarId
  name : String
  kind : VarKind
  lower : Limit α
  upper : Limit α
  deriving Repr, DecidableEq

/-- A variable with another bound on one side. -/
def Variable.withLimit {α : Type} (side : Side) (l : Limit α) (v : Variable α) : Variable α :=
  match side with
  | .lower => { v with lower := l }
  | .upper => { v with upper := l }

/-- How the two sides of a row compare. -/
inductive Sense where
  | le
  | ge
  | eq
  deriving Repr, DecidableEq

/-- The published sign of a sense. -/
def Sense.sign : Sense → String
  | le => "<="
  | ge => ">="
  | eq => "="

/-- The sense with a published sign. -/
def Sense.ofSign? (s : String) : Option Sense := [le, ge, eq].find? (·.sign = s)

/-- A row that is not in a model yet. -/
structure RowDraft (α : Type) where
  name : String
  terms : List (Term α)
  sense : Sense
  rhs : α
  deriving Repr, DecidableEq

/-- A row: terms in the order of the variables, compared with a number. -/
structure Row (α : Type) where
  id : RowId
  name : String
  terms : List (Term α)
  sense : Sense
  rhs : α
  deriving Repr, DecidableEq

/-- What is optimised. -/
structure Objective (α : Type) where
  expression : Linear α
  maximize : Bool
  deriving Repr, DecidableEq

/-- An optimisation model. -/
structure Model (α : Type) where
  name : String
  parameters : Parameters
  vars : List (Variable α)
  rows : List (Row α)
  objective : Objective α
  nextVar : VarId
  nextRow : RowId

variable {α : Type} [Scalar α]

namespace Limit

/-- A number as a bound. -/
def ofScalar (a : α) : Limit α :=
  if Scalar.isFinite a then finite a else if Scalar.less a 0 then negInf else posInf

/-- Bounds are infinite from this number on. -/
def infinity : Rat := 100000000000000000000

/-- A number as a bound, with the infinite ones told apart. -/
def ofLarge (a : α) : Limit α :=
  match Scalar.toRat? a with
  | some r => if infinity ≤ r then posInf else if r ≤ -infinity then negInf else finite a
  | none => ofScalar a

/-- A number as a bound of a variable, unless it is undefined. -/
def ofScalar? (a : α) : Option (Limit α) :=
  if Scalar.isUndefined a then none else some (ofLarge a)

/-- A finite bound moved by a function of its exact value. -/
def rounded (f : Rat → Int) : Limit α → Limit α
  | finite a => finite ((Scalar.toRat? a).elim a fun r => Scalar.ofRat (f r))
  | l => l

/-- The larger of a lower bound and a number. -/
def raiseTo (a : α) : Limit α → Limit α
  | negInf => finite a
  | finite b => finite (Scalar.larger b a)
  | posInf => posInf

/-- The smaller of an upper bound and a number. -/
def lowerTo (a : α) : Limit α → Limit α
  | negInf => negInf
  | finite b => finite (Scalar.smaller b a)
  | posInf => finite a

end Limit

/-- The bounds of a new variable of a kind: a binary one lies between zero and one, and where only
whole values are allowed the bounds are whole. -/
def VarKind.limits (kind : VarKind) (lower upper : Limit α) : Limit α × Limit α :=
  match kind with
  | continuous => (lower, upper)
  | binary => ((lower.raiseTo 0).rounded Rat.ceil, (upper.lowerTo 1).rounded Rat.floor)
  | integer => (lower.rounded Rat.ceil, upper.rounded Rat.floor)
  | semicontinuous => (lower, upper)
  | semiinteger => (lower.rounded Rat.ceil, upper.rounded Rat.floor)

/-- A name, or a letter and a number in place of an empty one. -/
def nameOrNumber (letter : String) (id : Nat) (name : String) : String :=
  if name.isEmpty then letter ++ toString id else name

namespace RowDraft

/-- A name may have 255 bytes. -/
def nameFits (name : String) : Bool := name.utf8ByteSize ≤ 255

/-- Whether a model takes the row. -/
def acceptable (r : RowDraft α) : Bool :=
  nameFits r.name && finiteTerms r.terms && !Scalar.isUndefined r.rhs

/-- The row with a number as a model keeps it. -/
def toRow (id : RowId) (r : RowDraft α) : Row α :=
  { id := id
    name := nameOrNumber "R" id r.name
    terms := (collect r.terms).filter fun t => !Scalar.negligible t.coefficient
    sense := r.sense
    rhs := Scalar.clip r.rhs }

end RowDraft

/-- The elements of a vector of names: `t[0]`, `t[1]`, … -/
def elementNames (t : String) (n : Nat) : List String :=
  (List.range n).map fun i => t ++ "[" ++ toString i ++ "]"

omit [Scalar α] in
/-- Items with consecutive numbers. -/
def number {β γ : Type} (f : Nat → β → γ) : Nat → List β → List γ
  | _, [] => []
  | k, b :: bs => f k b :: number f (k + 1) bs

namespace Model

/-- A model without anything in it. -/
def empty (name : String) : Model α :=
  { name := name
    parameters := .default
    vars := []
    rows := []
    objective := ⟨⟨[], 0⟩, false⟩
    nextVar := 0
    nextRow := 0 }

/-- The variable with a number. -/
def var? (m : Model α) (id : VarId) : Option (Variable α) := m.vars.find? (·.id = id)

/-- The row with a number. -/
def row? (m : Model α) (id : RowId) : Option (Row α) := m.rows.find? (·.id = id)

/-- The first variable with a name. -/
def varNamed? (m : Model α) (name : String) : Option VarId :=
  (m.vars.find? (·.name = name)).map (·.id)

/-- How many variables are binary. -/
def binaryCount (m : Model α) : Nat := m.vars.countP (·.kind = .binary)

/-! ### Additions -/

/-- New variables of one kind with the same bounds, and their numbers. -/
def addVars (m : Model α) (names : List String) (kind : VarKind) (lower upper : Limit α) :
    Except Fault (Model α × List VarId) :=
  if names.all RowDraft.nameFits then
    .ok ({ m with
        vars := m.vars ++ number (fun k name =>
          ⟨m.nextVar + k, nameOrNumber "C" (m.nextVar + k) name, kind, lower, upper⟩) 0 names
        nextVar := m.nextVar + names.length },
      List.range' m.nextVar names.length)
  else .error .refused

/-- A new variable with numbers as bounds, and its number. -/
def addVar (m : Model α) (name : String) (kind : VarKind) (lower upper : α) :
    Except Fault (Model α × List VarId) :=
  match Limit.ofScalar? lower, Limit.ofScalar? upper with
  | some l, some u =>
    let (l, u) := kind.limits l u
    m.addVars [name] kind l u
  | _, _ => .error .refused

/-- New rows, and their numbers. -/
def addRows (m : Model α) (drafts : List (RowDraft α)) : Except Fault (Model α × List RowId) :=
  if drafts.all RowDraft.acceptable then
    .ok ({ m with
        rows := m.rows ++ number (fun k d => RowDraft.toRow (m.nextRow + k) d) 0 drafts
        nextRow := m.nextRow + drafts.length },
      List.range' m.nextRow drafts.length)
  else .error .refused

/-! ### Removals -/

/-- The model without rows. -/
def removeRows (m : Model α) (ids : List RowId) : Model α :=
  { m with rows := m.rows.filter fun r => !ids.contains r.id }

/-- Terms without those of variables. -/
def dropTerms (ids : List VarId) (ts : List (Term α)) : List (Term α) :=
  ts.filter fun t => !ids.contains t.var

/-- The model without variables, also not in its rows and its objective. -/
def removeVars (m : Model α) (ids : List VarId) : Model α :=
  { m with
    vars := m.vars.filter fun v => !ids.contains v.id
    rows := m.rows.map fun r => { r with terms := dropTerms ids r.terms }
    objective := { m.objective with
      expression := { m.objective.expression with
        terms := dropTerms ids m.objective.expression.terms } } }

/-! ### Changes -/

/-- Another objective; its coefficients and its constant have to be finite. -/
def setObjective (m : Model α) (e : Linear α) (maximize : Bool) : Except Fault (Model α) :=
  if finiteTerms e.terms && Scalar.isFinite e.constant then
    .ok { m with objective :=
      ⟨⟨(collect e.terms).filter fun t => !Scalar.isZero t.coefficient, e.constant⟩, maximize⟩ }
  else .error .refused

/-- The kinds of all variables. -/
def kinds (m : Model α) : List VarKind := m.vars.map (·.kind)

/-- Other kinds for the variables, in their order. -/
def setKinds (m : Model α) (kinds : List VarKind) : Model α :=
  { m with vars := List.zipWith (fun v k => { v with kind := k }) m.vars kinds }

/-- Some variable does not take every value between its bounds. -/
def isMixed (m : Model α) : Bool := m.vars.any fun v => decide (v.kind ≠ .continuous)

/-- The model with every variable continuous, between the bounds that it has. -/
def relaxed (m : Model α) : Model α :=
  { m with vars := m.vars.map fun v => { v with kind := .continuous } }

/-- Bounds on one side for the variables that a list pairs with them. -/
def setSide (m : Model α) (side : Side) (limits : List (VarId × Limit α)) : Model α :=
  { m with vars := m.vars.map fun v =>
      match limits.lookup v.id with
      | some l => v.withLimit side l
      | none => v }

/-- Bounds for the variables that a list pairs with bounds. -/
def setBounds (m : Model α) (bounds : List (VarId × Limit α × Limit α)) : Model α :=
  { m with vars := m.vars.map fun v =>
      match bounds.lookup v.id with
      | some (lower, upper) => { v with lower := lower, upper := upper }
      | none => v }

/-- The bounds of variables. -/
def boundsOf (m : Model α) (ids : List VarId) : List (VarId × Limit α × Limit α) :=
  ids.filterMap fun id => (m.var? id).map fun v => (id, v.lower, v.upper)

end Model

end ReluMilp
