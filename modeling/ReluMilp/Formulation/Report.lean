import ReluMilp.Formulation.Basic

/-!
# Reports on formulations

* `Formulation.text` — the name of a formulation, which has to be a text;
* `Formulation.hiddenUnits`, `Formulation.unitRows` — the neurons of a hidden layer, and their rows with
  binary variables as the model holds them;
* `Formulation.varNames`, `Formulation.rowNames` — the names of its parts in the model;
* `Formulation.report` — its sizes, overall and per layer, line by line. What cannot be told of a
  removed formulation ends the report early.
-/

namespace ReluMilp

variable {α : Type}

/-- A text filled with blanks on the left. -/
def alignRight (width : Nat) (s : String) : String :=
  String.ofList (List.replicate (width - s.length) ' ') ++ s

/-- A text filled with blanks on the right. -/
def alignLeft (width : Nat) (s : String) : String :=
  s ++ String.ofList (List.replicate (width - s.length) ' ')

/-- A line of one character. -/
def rule (c : Char) (width : Nat) : String := String.ofList (List.replicate width c)

/-- The columns of a report. -/
def columnsLine (layer shape vars binaries rows : String) : String :=
  String.intercalate " " [alignLeft 13 layer, alignRight 14 shape, alignRight 12 vars,
    alignRight 12 binaries, alignRight 12 rows]

/-- The heading of the columns. -/
def heading : String := columnsLine "Layer" "Output Shape" "Variables" "Binaries" "Constraints"

/-- The shape of a vector. -/
def vectorShape (n : Nat) : String := s!"({n},)"

/-- The line of layer `k`. -/
def layerLine (k : Nat) (kind : String) (outputs vars binaries rows : Nat) : String :=
  columnsLine s!"dense{k} ({kind})" (vectorShape outputs) (toString vars) (toString binaries)
    (toString rows)

/-- The lines of all layers, each followed by an empty one. -/
def layerLines (b : Body) : List String :=
  let hidden := number (fun k (us : List HiddenUnit) =>
    let n := us.length
    layerLine k "relu" n (3 * n) n (Body.unitRows us).length) 1 b.hidden
  let output := layerLine (b.hidden.length + 1) "identity" b.outputs.length b.outputs.length 0
    b.outputRows.length
  (hidden ++ [output]).flatMap fun line => [line, ""]

namespace Formulation

/-- The text of a formulation is its name. -/
def text (f : Formulation α) : Except Fault String :=
  match f.name with
  | .text s => .ok s
  | _ => .error .wrongKind

/-- Rows of a model, which all have to be there. -/
def rowsAt (m : Model α) (ids : List RowId) : Except Fault (List (Row α)) :=
  ids.mapM fun id => (m.row? id).elim (.error .refused) .ok

/-- The neurons of the hidden layer that a value names. -/
def hiddenUnits (f : Formulation α) (layer : Value) : Except Fault (List HiddenUnit) :=
  match layer with
  | .list _ => .error .wrongKind
  | .record _ => .error .wrongKind
  | layer =>
    match layer.whole? with
    | some k =>
      if 1 ≤ k then (f.hidden[(k - 1).toNat]?).elim (.error .missingKey) .ok
      else .error .missingKey
    | none => .error .missingKey

/-- The upper and the lower rows with binary variables of neurons. -/
def unitRows (us : List HiddenUnit) (m : Model α) :
    Except Fault (List (Row α) × List (Row α)) := do
  let upper ← rowsAt m (us.map (·.upperRow))
  let lower ← rowsAt m (us.map (·.lowerRow))
  return (upper, lower)

/-- The names of all variables. -/
def varNames (f : Formulation α) (m : Model α) : Except Fault (List String) :=
  f.vars.mapM fun id => (m.var? id).elim (.error .refused) fun v => .ok v.name

/-- The names of all rows. -/
def rowNames (f : Formulation α) (m : Model α) : Except Fault (List String) := do
  return (← rowsAt m f.rows).map (·.name)

/-- The lines of a report, and what ended it early. -/
def report (f : Formulation α) : List String × Option Fault :=
  let sizes := ["Model for " ++ f.name.asText ++ ":", s!"{f.vars.length} variables",
    s!"{f.rows.length} constraints"]
  match f.body? with
  | none => (sizes, some .outOfRange)
  | some b =>
    let width := heading.length
    (sizes ++ ["Input has shape " ++ vectorShape b.inputs.length,
        "Output has shape " ++ vectorShape b.outputs.length,
        "Bound tightening: " ++ f.mode.name, "",
        rule '-' width, heading, rule '=' width]
      ++ layerLines b ++ [rule '-' width], none)

end Formulation

end ReluMilp
