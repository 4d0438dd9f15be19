import ReluMilp.Formulation.Basic
import ReluMilp.Number.Layout

/-!
# Evaluation through the model

* `writeSide`, `solveFixed` — variables fixed to values, one side of their bounds after the other, the
  model solved, and the bounds set back to what they were;
* `forwardPass` — the inputs fixed to given values, and the outputs read;
* `Evaluation` — the values of the outputs, or the status of a model without a point;
* `Formulation.outputValues`, `inputValues`, `error` — read from the point of the last solve.
-/

namespace ReluMilp

variable {α : Type}

/-- What a forward pass gives. -/
inductive Evaluation (α : Type) where
  | values (v : List α)
  | infeasible (input : List α) (status : Status)

/-- The text of a forward pass without a point. -/
def describeInfeasible (input : List Float) (status : Status) : String :=
  "Infeasible(input=[" ++ String.intercalate ", " (input.map plain.text) ++ "], status="
    ++ toString status.code ++ ")"

variable [Scalar α]

/-- Values as bounds of variables on one side. -/
def fixedLimits (ids : List VarId) (v : List α) : List (VarId × Limit α) :=
  List.zipWith (fun id a => (id, Limit.ofScalar a)) ids v

/-- Values written as bounds on one side; nothing changes if one of them is undefined. -/
def writeSide (side : Side) (ids : List VarId) (v : List α) : Action α Unit :=
  .update fun m =>
    if v.any Scalar.isUndefined then .error .missingMember
    else .ok (m.setSide side (fixedLimits ids v), ())

/-- A solve with variables fixed to values. Their lower bounds are written first, then the upper ones.
From then on the bounds that were there before come back, also after a fault. -/
def solveFixed (solver : Solver α) (ids : List VarId) (v : List α) : Action α (Outcome α) := do
  let before ← .model
  writeSide .lower ids v
  writeSide .upper ids v
  .ensuring (fun now => now.setBounds (before.boundsOf ids)) (.solve solver)

/-- The outputs of a formulated network for an input, read in reading order. Changes that wait are
made before the bounds are looked up. -/
def forwardPass (solver : Solver α) (f : Formulation α) (input : Reading α) :
    Action α (Evaluation α) := do
  let v := (← .ofExcept input).entries
  match f.body? with
  | none => throw .outOfRange
  | some b =>
    if v.length ≠ b.inputs.length then
      throw (.parameter (.inputLength v.length b.inputs.length))
    else
      .settle
      let o ← solveFixed solver b.inputs v
      match o.point with
      | some x => return .values (b.outputs.map x)
      | none => return .infeasible v o.status

namespace Formulation

omit [Scalar α] in
/-- The values of variables at the point of the last solve. -/
def valuesAt (f : Formulation α) (part : Body → List VarId) (w : Workspace α) :
    Except Fault (List α) :=
  match f.body? with
  | none => .error .outOfRange
  | some b =>
    match w.solution with
    | none => .error .noSolution
    | some x => .ok ((part b).map x)

omit [Scalar α] in
/-- The values of the inputs. -/
def inputValues (f : Formulation α) (w : Workspace α) : Except Fault (List α) :=
  f.valuesAt (·.inputs) w

omit [Scalar α] in
/-- The values of the outputs. -/
def outputValues (f : Formulation α) (w : Workspace α) : Except Fault (List α) :=
  f.valuesAt (·.outputs) w

/-- How far the outputs are from the values of the network on the inputs. -/
def error (f : Formulation α) (w : Workspace α) : Except Fault (List α) := do
  let v ← f.inputValues w
  let u ← f.outputValues w
  return List.zipWith (fun a b => Scalar.magnitude (a - b)) (f.network.eval v) u

end Formulation

end ReluMilp
