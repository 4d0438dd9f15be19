import ReluMilp.Milp.Parameters
import ReluMilp.Text.Case
import ReluMilp.Value

/-!
# Solver settings

* `Settings` — the checked configuration of the solver;
* `Settings.make` — from five values, checked in order;
* `Settings.ofFields` — from named values, where every name has to be known;
* `Settings.ofValue` — from a configuration of any shape, whose unknown names are complained about
  first;
* `Settings.changes` — what the settings set on an optimisation model.
-/

namespace ReluMilp

/-- A checked configuration. -/
structure Settings where
  solver : String
  silent : Bool
  threads : Int
  relax : Bool
  timeLimit : Float

namespace Settings

/-- The names of the fields of a configuration. -/
def fieldNames : List String := ["solver", "silent", "threads", "relax", "time_limit"]

/-- A silent solver without limits. -/
def default : Settings := ⟨"gurobi", true, 0, false, 0⟩

/-- The checks and conversions of a configuration, in order: the name of the solver in any case, a
number of threads and a time limit that are not negative, then each field as what it stands for. -/
def make (solver silent threads relax timeLimit : Value) : Except Fault Settings := do
  match solver with
  | .text s =>
    let name := lower s
    if name ≠ "gurobi" then .error (.parameter (.unsupportedSolver name))
    else if ← threads.isNegative then .error (.parameter (.negativeThreads threads.asText))
    else if ← timeLimit.isNegative then .error (.parameter (.negativeTimeLimit timeLimit.asText))
    else
      let n ← threads.truncated
      let limit ← timeLimit.asReal
      .ok ⟨name, silent.truth, n, relax.truth, limit⟩
  | _ => .error .missingMember

/-- The settings of named values; a name that is no field is refused. -/
def ofFields (config : Value) : Except Fault Settings :=
  match config with
  | .record fields =>
    if fields.all fun (k, _) => fieldNames.contains k then
      let get (key : String) (absent : Value) : Value := (config.field? key).getD absent
      make (get "solver" (.text "gurobi")) (get "silent" (.bool true)) (get "threads" (.int 0))
        (get "relax" (.bool false)) (get "time_limit" (.real 0))
    else .error .wrongKind
  | _ => .error .wrongKind

/-- Insertion into a sorted list of texts without repetition. -/
def insertName (s : String) : List String → List String
  | [] => [s]
  | t :: ts => if s = t then t :: ts else if s < t then s :: t :: ts else t :: insertName s ts

/-- The names of a configuration that are no fields, sorted and without repetition; `none` if an
item of the configuration is not a name. -/
def unknownNames? : List Value → Option (List String)
  | [] => some []
  | .text s :: vs =>
    (unknownNames? vs).map fun ns => if fieldNames.contains s then ns else insertName s ns
  | _ :: _ => none

/-- The settings of a configuration of any shape. -/
def ofValue (config : Value) : Except Fault Settings :=
  match config.items? with
  | none => .error .wrongKind
  | some items =>
    match unknownNames? items with
    | none => .error .wrongKind
    | some [] => ofFields config
    | some names => .error (.parameter (.unknownSettings names))

/-- What the settings set on an optimisation model, in order; a time limit only if it is positive. -/
def changes (s : Settings) : List Parameters.Change :=
  [.output (!s.silent), .threads s.threads.toNat]
    ++ (if 0 < s.timeLimit then [.timeLimit s.timeLimit] else [])

/-- The short description of settings. -/
def describe (s : Settings) : String :=
  "SolverParams(solver=" ++ quoted s.solver ++ ", silent=" ++ (Value.bool s.silent).asText
    ++ ", threads=" ++ toString s.threads ++ ", relax=" ++ (Value.bool s.relax).asText
    ++ ", time_limit=" ++ plain.text s.timeLimit ++ ")"

end Settings

end ReluMilp
