import ReluMilp.Predictor.LayerKinds

/-!
# Descriptions of stacks

A stack may be described by values: a layer by a kernel and a bias or by the name of its kind, both
with options.

* `LayerDescription`, `StackDescription` — what is given;
* `LayerPart` — a layer on its own, with what it does to what passes through it;
* `StackDescription.stack` — the stack, or the first thing that is wrong with it. Once the widths
  of a stack are known, the parts have to suit each other.
-/

namespace ReluMilp

/-- A layer as described. -/
inductive LayerDescription where
  /-- Weights, a row per input, a bias if there is one, and options. -/
  | dense (kernel : Value) (bias : Option Value) (options : Value)
  /-- The name of a kind, and options. -/
  | named (kind options : Value)

/-- A stack as described. A number of inputs may be given, and whether the widths are known. -/
structure StackDescription where
  kind : Value
  name : Value
  inputs : Value
  built : Bool
  layers : List LayerDescription

/-- What a layer does to what passes through it. -/
inductive LayerRule where
  | passes (effect : Dims → Except Fault Passage)
  /-- An affine map of the last dimension, to one of this size. -/
  | maps (outputs : Nat)
  /-- Arrays are declared, by a first dimension and the others. -/
  | declares (batch : Option Nat) (ds : Dims)

/-- An affine map as given: a row per input, and how its numbers are stored. -/
structure AffineWeights where
  kernel : Tensor Float
  bias : Option (Tensor Float)
  /-- Missing if the format has no fractions. -/
  formats : Option (List BinaryFormat)

/-- A layer on its own. -/
structure LayerPart where
  name : Option String
  layer : StackLayer Float
  rule : LayerRule
  weights : Option AffineWeights
  /-- What the options say of the input, for a layer that comes first. -/
  input : Option Value

namespace LayerDescription

open LayerOption

/-- The explicit name of a layer. -/
def nameOf (options : Value) : Option String :=
  match options.option "name" with
  | .text s => some s
  | _ => none

/-- What options that every kind has say of the input. -/
def inputOf (options : Value) : Option Value :=
  match options.option "input_dim", options.option "input_shape" with
  | .null, .null => none
  | .null, v => some v
  | v, _ => some (.list [v])

/-- The affine layer of a kernel, whose rows and bias are looked at once the widths are known. -/
def densePart (kernel : Value) (bias : Option Value) (options : Value) :
    Except Fault LayerPart := do
  let k ← Tensor.ofValue kernel
  let b ← bias.mapM Tensor.ofValue
  match k.shape with
  | _ :: n :: _ =>
    let options ← options.fields
    if (optionNames options).any ["units", "use_bias"].contains then throw .wrongKind
    checkOptions [] (denseOptions ++ commonOptions) options
    checkCommon options
    if n = 0 then throw .wrongValue
    let a ← activation (options.option "activation")
    return {
      name := nameOf options
      layer := .dense k none a
      rule := .maps n
      weights := some ⟨k, b, storage? (options.option "dtype")⟩
      input := inputOf options }
  | _ => throw .outOfRange

/-- The dimensions that a layer declares, the first one apart: by a shape without it, or by one with
it. -/
def declared (options : Value) : Except Fault (Option Nat × Dims) := do
  let first (a b : String) : Value := nameOr (options.option a) (options.option b)
  match first "input_shape" "shape", first "batch_input_shape" "batch_shape" with
  | .null, .null => throw .wrongValue
  | shape, .null =>
    return (← Dims.ofValue (options.option "batch_size"), ← Dims.ofValues shape)
  | .null, shape =>
    if !(options.option "batch_size").isNull then throw .wrongValue
    match ← Dims.ofValues shape with
    | [] => return (none, [])
    | n :: ds => return (n, ds)
  | _, _ => throw .wrongValue

/-- A layer that declares an input. -/
def inputPart (options : Value) : Except Fault LayerPart := do
  checkLabel (options.option "name")
  let (batch, ds) ← declared options
  match options.option "dtype" with
  | .null => pure ()
  | .text s => if !("int8" :: entryFormats).contains s then throw .wrongValue
  | _ => throw .wrongValue
  return ⟨nameOf options, .input, .declares batch ds, none, none⟩

/-- The effect of a kind of layers. -/
def effectOf (kind : LayerKind) (options : Value) (ds : Dims) : Except Fault Passage :=
  match kind.taken with
  | .vectors => if ds.isEmpty then .error .wrongValue else passageOf kind.name options ds
  | .rank n => if ds.length = n then .ok .unknown else .error .wrongValue
  | .nothing => .error .wrongValue

/-- The layer of a kind with options. -/
def namedPart (kind : String) (options : Value) : Except Fault LayerPart := do
  match layerKinds.find? (·.name = kind) with
  | none =>
    throw (if joiningNames.contains kind then .wrongKind
      else if kind = "InputSpec" then .wrongValue else .missingMember)
  | some k =>
    checkOptions k.required (k.optional.getD (optionNames options)) options
    checkCommon options
    let layer ← StackLayer.ofKind kind options
    let input := if k.required.contains "input_dim" then none else inputOf options
    return ⟨nameOf options, layer, .passes (effectOf k options), none, input⟩

/-- The layer of a description on its own. -/
def part : LayerDescription → Except Fault LayerPart
  | dense kernel bias options => densePart kernel bias options
  | named (.text kind) options => do
    let options ← options.fields
    match kind with
    | "InputLayer" =>
      checkOptions [] inputOptions options
      inputPart options
    | "Input" =>
      if !(optionNames options).all declarationOptions.contains then throw .wrongKind
      inputPart options
    | _ => namedPart kind options
  | named _ _ => throw .wrongKind

end LayerDescription

namespace LayerPart

/-- Whether a layer declares an input. -/
def isInput (p : LayerPart) : Bool :=
  match p.rule with
  | .declares _ _ => true
  | _ => false

/-- A first layer with options about the input comes behind a layer that declares it. -/
def withDeclared (ps : List LayerPart) : Except Fault (List LayerPart) := do
  match ps with
  | p :: rest =>
    match p.input with
    | some shape =>
      let ds ← Dims.ofValues shape
      return ⟨none, .input, .declares none ds, none, none⟩ :: p :: rest
    | none => return p :: rest
  | [] => return []

/-- What comes out of a layer for what passes into it. -/
def passage (p : LayerPart) (before : Passage) : Except Fault Passage :=
  match p.rule, before with
  | .declares _ _, _ => .error .wrongValue
  | _, .stopped => .ok .stopped
  | .passes _, .unknown => .ok .unknown
  | .maps _, .unknown => .ok .unknown
  | .passes effect, .dims ds => effect ds
  | .maps n, .dims ds =>
    match ds.getLast?, p.weights.bind (·.formats) with
    | some (some _), some _ => .ok (.dims (ds.dropLast ++ [some n]))
    | _, _ => .error .wrongValue

/-- What passes into each of some layers, and what comes out of the last one. -/
def passages : Passage → List LayerPart → Except Fault (List Passage × Passage)
  | before, [] => .ok ([], before)
  | before, p :: ps => do
    let after ← p.passage before
    let (rest, last) ← passages after ps
    return (before :: rest, last)

/-- An affine map with its weights, for what passes into it: they have a row per entry of it, and a
bias for each of theirs. -/
def finished (p : LayerPart) (before : Passage) : Except Fault (StackLayer Float) :=
  match p.layer, p.weights with
  | .dense _ _ a, some w =>
    let stored (t : Tensor Float) : Tensor Float :=
      t.map fun x => (w.formats.getD []).foldl (fun x f => f.store x) x
    match w.kernel.shape, before with
    | _, .stopped => .error .wrongValue
    | [m, n], before =>
      let rows : Option Nat := match before with
        | .dims ds => ds.getLast?.getD none
        | _ => some m
      if rows = some m && w.bias.all (·.shape = [n]) then
        .ok (.dense (stored w.kernel) (w.bias.map stored) a)
      else .error .wrongValue
    | _, _ => .error .wrongValue
  | l, _ => .ok l

/-- No name is given twice, and only one layer declares an input at the start. -/
def checkTogether (ps : List LayerPart) : Except Fault Unit := do
  if !decide (ps.filterMap (·.name)).Nodup then throw .wrongValue
  match ps with
  | p :: rest => if p.isInput && rest.any isInput then throw .wrongValue
  | [] => return

end LayerPart

namespace StackDescription

/-- The number of inputs: the given one, or that of an affine layer that comes first. -/
def width (d : StackDescription) (ps : List LayerPart) : Except Fault (Option Nat) :=
  match d.inputs with
  | .null => .ok (ps.head?.bind fun p => p.weights.bind fun w => w.kernel.shape.head?)
  | .bool b => .ok (some (if b then 1 else 0))
  | v => Dims.ofValue v

/-- What passes into the layers of a stack whose widths are known, and what comes out of the last
one; nothing if they are not known. A declared input goes before a given number of inputs, which has
to say the same. -/
def passages (d : StackDescription) (ps given : List LayerPart) :
    Except Fault (Option (List Passage × Passage)) := do
  match ps with
  | [] => return none
  | ⟨_, _, .declares batch ds, _, _⟩ :: rest =>
    let found ← if rest.isEmpty then pure ([], .dims ds) else LayerPart.passages (.dims ds) rest
    if d.built then
      if batch.isSome || ds ≠ [← d.width given] then throw .wrongValue
    return if d.built || !rest.isEmpty then some (.dims ds :: found.1, found.2) else none
  | ps =>
    if d.built then return some (← LayerPart.passages (.dims [← d.width given]) ps) else return none

/-- The stack of a description. -/
def stack (d : StackDescription) : Except Fault (LayerStack Float) := do
  let kind ← kindOr d.kind "Sequential"
  let given ← d.layers.mapM (·.part)
  checkLabel d.name
  let ps ← LayerPart.withDeclared given
  LayerPart.checkTogether ps
  let name := nameOr d.name (.text "sequential")
  match ← d.passages ps given with
  | none => return ⟨kind, name, false, ps.map (·.layer)⟩
  | some (before, last) =>
    let layers ← (ps.zip before).mapM fun (p, b) => p.finished b
    return ⟨kind, name, last ≠ .stopped, layers⟩

end StackDescription

end ReluMilp
