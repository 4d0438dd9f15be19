import ReluMilp.Bounds.Interval
import ReluMilp.Formulation.Jobs
import ReluMilp.Formulation.Mode
import ReluMilp.Settings
import ReluMilp.Tensor.Reading

/-!
# Requests

What a formulation is built from, checked before anything is added to a model.

* `Plan` — a mode together with the bounds on the output that one of them needs;
* `Request` — everything that a build needs;
* `BuildArguments` — what a caller gives;
* `BuildArguments.request` — the request of arguments, or the first thing that is wrong with them.
-/

namespace ReluMilp

variable {α : Type}

/-- How bounds are found. -/
inductive Plan (α : Type) where
  | fast
  | standard
  /-- With bounds of the output. -/
  | output (range : List (Interval α))

/-- The mode of a plan. -/
def Plan.mode : Plan α → Mode
  | fast => .fast
  | standard => .standard
  | output _ => .output

/-- A checked request. -/
structure Request (α : Type) where
  network : Network α
  name : Value
  plan : Plan α
  settings : Settings
  jobs : Jobs
  /-- The bounds of the input. -/
  box : List (Interval α)
  /-- Bounds of all layers, if they are given. -/
  given : Option (List (List (Interval α)))

/-! ### Arguments -/

/-- The bounds of one layer as given: how many there are, which may be unknown, and the numbers. -/
structure LayerArgument (α : Type) where
  size : Except Fault Nat
  reading : Reading α

/-- One side of a table of bounds as given. -/
inductive TableArgument (α : Type) where
  | absent
  /-- Something that is no list. -/
  | unsized
  | layers (items : List (LayerArgument α))

/-- What a caller gives. A network that is none is known by its kind only, and a vector may be
missing. -/
structure BuildArguments (α : Type) where
  network : Except String (Network α)
  mode : Value
  settings : Settings
  jobs : Value
  name : Value
  inputUpper : Option (Reading α)
  inputLower : Option (Reading α)
  boundsUpper : TableArgument α
  boundsLower : TableArgument α
  outputUpper : Option (Reading α)
  outputLower : Option (Reading α)

namespace TableArgument

/-- Values as one side of a table. -/
def ofValue (v : Value) : TableArgument Float :=
  match v with
  | .null => absent
  | v =>
    match v.items? with
    | none => unsized
    | some items => layers (items.map fun i => ⟨i.shape.map volume, Tensor.ofValue i⟩)

end TableArgument

namespace BuildArguments

/-- A vector of a given length. -/
def vector (which : BoundVector) (length : Nat) (v : Option (Reading α)) : Except Fault (List α) :=
  match v with
  | none => .error (.parameter (.missingVector which))
  | some r => do
    let t ← r
    if t.entries.length = length then return t.entries
    else throw (.parameter (.vectorLength which length t.entries.length))

/-- The layers of one side of a table have the widths of the network. -/
def checkWidths (side : Side) : Nat → List (LayerArgument α) → List Nat → Except Fault Unit
  | k, a :: as, n :: ns => do
    let size ← a.size
    if size = n then checkWidths side (k + 1) as ns
    else throw (.parameter (.tableLength side k n))
  | _, _, _ => .ok ()

/-- One side of a table has a list per layer, each as long as its layer is wide. -/
def checkSide (side : Side) (widths : List Nat) : TableArgument α →
    Except Fault (List (LayerArgument α))
  | .layers items => do
    if items.length = widths.length then
      checkWidths side 1 items widths
      return items
    else throw (.parameter (.tableCount side widths.length items.length))
  | _ => .error .wrongKind

/-- A table of bounds, if one is given: both sides are checked before any number is read. -/
def table (widths : List Nat) (upper lower : TableArgument α) :
    Except Fault (Option (List (List (Interval α)))) :=
  match upper, lower with
  | .absent, .absent => .ok none
  | .absent, _ => .error (.parameter .oneSidedTable)
  | _, .absent => .error (.parameter .oneSidedTable)
  | upper, lower => do
    let us ← checkSide .upper widths upper
    let ls ← checkSide .lower widths lower
    let us ← us.mapM (·.reading)
    let ls ← ls.mapM (·.reading)
    return some (List.zipWith (fun u l => Interval.ofLists u.entries l.entries) us ls)

variable [Scalar α]

/-- The bounds of the input: finite, and none above the other. -/
def box (upper lower : List α) : Except Fault (List (Interval α)) :=
  if !(upper.all Scalar.isFinite && lower.all Scalar.isFinite) then
    .error (.parameter .boxNotFinite)
  else if (List.zipWith (fun u l => Scalar.less u l) upper lower).any id then
    .error (.parameter .boxCrossed)
  else .ok (Interval.ofLists upper lower)

/-- The request of arguments. -/
def request (a : BuildArguments α) : Except Fault (Request α) := do
  let n ← match a.network with
    | .ok n => .ok n
    | .error kind => .error (.parameter (.notNetwork kind))
  let mode ← Mode.ofValue a.mode
  let upper ← vector .inputUpper n.inputs a.inputUpper
  let lower ← vector .inputLower n.inputs a.inputLower
  let box ← box upper lower
  let given ← table n.neuronCount a.boundsUpper a.boundsLower
  let plan ← match mode with
    | .fast => .ok Plan.fast
    | .standard => .ok Plan.standard
    | .output => do
      let upper ← vector .outputUpper n.outputs a.outputUpper
      let lower ← vector .outputLower n.outputs a.outputLower
      .ok (Plan.output (Interval.ofLists upper lower))
  return {
    network := n
    name := match a.name with
      | .null => n.name
      | v => v
    plan := plan
    settings := a.settings
    jobs := .ofValue a.jobs
    box := box
    given := given }

end BuildArguments

end ReluMilp
