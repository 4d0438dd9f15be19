import ReluMilp.Milp.Model

/-!
# Solving models

* `Outcome` — how a solve ends: a status, a bound on the objective and perhaps a point;
* `Solver` — a function from models to outcomes, which may differ from one attempt to the next;
* `Workspace` — a model, the point of its last solve, and the number of attempts so far;
* `Action` — a change of a workspace that may end with a fault; what it did before the fault stays
  done;
* `RowBlock`, `Action.commit` — rows that are added together, as far as they are taken.

The point of a solve is lost when the model changes. A removal or an addition of rows may wait: the
point then stays until the next change that does not wait, or until `Action.settle`.
-/

namespace ReluMilp

/-- How a solve ends. -/
inductive Status where
  | optimal
  | infeasible
  | unbounded
  | timeLimit
  | other (code : Nat)
  deriving Repr, DecidableEq

/-- The published number of a status. -/
def Status.code : Status → Nat
  | optimal => 2
  | infeasible => 3
  | unbounded => 5
  | timeLimit => 9
  | other n => n

/-- The result of a solve: with an optimal status, `bound` is a bound of the objective over all
feasible assignments and `value` the objective of the best point. -/
structure Outcome (α : Type) where
  status : Status
  bound : α
  value : α
  point : Option (Assignment α)

/-- The objective of the best point of an optimal outcome. -/
def Outcome.optimum? {α : Type} (o : Outcome α) : Option α :=
  match o.status with
  | .optimal => some o.value
  | _ => none

/-- The optimum of a model after an optimal outcome. The best point of a mixed model may be within the gap
of the optimum, so that the bound counts there. -/
def Model.optimum? {α : Type} (m : Model α) (o : Outcome α) : Option α :=
  o.optimum?.map fun value => if m.isMixed then o.bound else value

/-- A solver. The first argument counts the attempts before this one. -/
abbrev Solver (α : Type) := Nat → Model α → Except Fault (Outcome α)

/-- Rows that are given together. The coefficients of a checked block are looked at when it is given,
those of any other when it is added. -/
structure RowBlock (α : Type) where
  checked : Bool
  rows : List (RowDraft α)
  deriving Repr, DecidableEq

/-- A model in use: the point of its last solve, whether rows changed since then, and how often it was
solved. -/
structure Workspace (α : Type) where
  model : Model α
  solution : Option (Assignment α)
  waiting : Bool
  attempts : Nat

/-- A change of a workspace. -/
abbrev Action (α β : Type) := EStateM Fault (Workspace α) β

namespace Workspace

/-- A model that was not solved yet. -/
def ofModel {α : Type} (m : Model α) : Workspace α := ⟨m, none, false, 0⟩

/-- A workspace with a changed model. -/
def withModel {α : Type} (w : Workspace α) (m : Model α) : Workspace α :=
  { w with model := m, solution := none, waiting := false }

/-- A workspace with a model whose change waits. -/
def withWaiting {α : Type} (w : Workspace α) (m : Model α) : Workspace α :=
  { w with model := m, waiting := true }

/-- A workspace without a change that waits. -/
def settled {α : Type} (w : Workspace α) : Workspace α :=
  if w.waiting then w.withModel w.model else w

end Workspace

namespace Action

variable {α β : Type}

/-- The result of a computation that does not look at the workspace. -/
def ofExcept (e : Except Fault β) : Action α β := fun w =>
  match e with
  | .ok b => .ok b w
  | .error f => .error f w

/-- The current model. -/
def model : Action α (Model α) := fun w => .ok w.model w

/-- A change of the model that gives a result; nothing changes if it is refused. -/
def update (f : Model α → Except Fault (Model α × β)) : Action α β := fun w =>
  match f w.model with
  | .ok (m, b) => .ok b (w.withModel m)
  | .error e => .error e w

/-- A change of the model that is never refused. -/
def change (f : Model α → Model α) : Action α Unit := fun w => .ok () (w.withModel (f w.model))

/-- No change waits any longer. -/
def settle : Action α Unit := fun w => .ok () w.settled

/-- The parameters of the model, changed as far as they are taken. They do not belong to what is
solved, so that a point stays. -/
def changeParameters (cs : List Parameters.Change) : Action α Unit := fun w =>
  let (p, refused) := w.model.parameters.setAll cs
  let w := { w with model := { w.model with parameters := p } }
  match refused with
  | none => .ok () w
  | some f => .error f w

/-- A solve of the model. -/
def solve (solver : Solver α) : Action α (Outcome α) := fun w =>
  let tried := { w with attempts := w.attempts + 1 }
  match solver w.attempts w.model with
  | .ok o => .ok o { tried with solution := o.point, waiting := false }
  | .error f => .error f tried

/-- An action on a copy of the model, which is lost afterwards; only the attempts count on. -/
def onCopy (copy : Model α → Except Fault (Model α)) (act : Action α β) : Action α β := fun w =>
  match copy w.model with
  | .error f => .error f w
  | .ok m =>
    match act ⟨m, none, false, w.attempts⟩ with
    | .ok b v => .ok b { w with attempts := v.attempts }
    | .error f v => .error f { w with attempts := v.attempts }

/-- An action between a change of the model and one that depends on the model as it was before; the
second happens also after a fault. -/
def bracket (before : Model α → Model α) (after : Model α → Model α → Model α)
    (act : Action α β) : Action α β := fun w =>
  match act (w.withModel (before w.model)) with
  | .ok b v => .ok b (v.withModel (after w.model v.model))
  | .error f v => .error f (v.withModel (after w.model v.model))

/-- An action and then a change of the model, which happens also after a fault. -/
def ensuring (after : Model α → Model α) (act : Action α β) : Action α β := fun w =>
  match act w with
  | .ok b v => .ok b (v.withModel (after v.model))
  | .error f v => .error f (v.withModel (after v.model))

/-- The blocks before the first one that is checked and has a coefficient that is not finite. -/
def taken [Scalar α] (blocks : List (RowBlock α)) : List (RowBlock α) :=
  blocks.takeWhile fun b => !b.checked || b.rows.all fun r => finiteTerms r.terms

/-- New rows, added together, which wait. A checked block with a coefficient that is not finite stops
the addition, with the rows before it kept; every other row that a model does not take keeps all of
them out. -/
def stage [Scalar α] (blocks : List (RowBlock α)) : Action α (List RowId) := fun w =>
  match w.model.addRows ((taken blocks).flatMap (·.rows)) with
  | .error f => .error f w
  | .ok (m, ids) =>
    if (taken blocks).length < blocks.length then .error .refused (w.withWaiting m)
    else .ok ids (w.withWaiting m)

/-- New rows, added together, which wait only if a checked block stopped the addition. -/
def commit [Scalar α] (blocks : List (RowBlock α)) : Action α (List RowId) := fun w =>
  match stage blocks w with
  | .ok ids v => .ok ids v.settled
  | .error f v => .error f (if (taken blocks).length < blocks.length then v else v.settled)

/-- Rows taken out of the model, as far as they are in it, which waits. -/
def dropRows (ids : List RowId) : Action α Unit := fun w =>
  .ok () (w.withWaiting (w.model.removeRows ids))

end Action

end ReluMilp
