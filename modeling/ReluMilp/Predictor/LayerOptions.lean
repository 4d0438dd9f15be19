import ReluMilp.Number.Binary
import ReluMilp.Predictor.Arguments

/-!
# Options of layers

Options have names. Some of them mean the same for every kind of layers.

* `Value.fields` — a record, or pairs of names and values, as options, `Value.option` — one of them;
* `activationNames`, `LayerOption.activation` — the names of activations;
* `LayerOption.storage?` — the formats that numbers pass through under the name of a format;
* `checkLabel`, `checkCommon` — what holds for the options of every kind;
* `checkOptions` — none is missing and none is unknown.
-/

namespace ReluMilp

/-- A record, or a list of pairs of names and values, as a record. -/
def Value.fields (v : Value) : Except Fault Value := do
  match v with
  | .record _ => return v
  | .null => throw .wrongKind
  | v => do
    let fields ← (← Argument.pairs v).mapM fun (key, v) =>
      match key with
      | .text s => .ok (s, v)
      | _ => .error .wrongKind
    return .record fields.reverse

/-- The option with a name, nothing if it is not given. -/
def Value.option (options : Value) (key : String) : Value := (options.field? key).getD .null

/-- The names of activations. -/
def activationNames : List String :=
  ["relu", "leaky_relu", "relu6", "softmax", "celu", "elu", "selu", "softplus", "softsign",
    "squareplus", "soft_shrink", "sparse_plus", "silu", "swish", "gelu", "glu", "tanh",
    "tanh_shrink", "threshold", "sigmoid", "sparse_sigmoid", "exponential", "hard_sigmoid",
    "hard_silu", "hard_swish", "hard_tanh", "hard_shrink", "linear", "mish", "log_softmax",
    "log_sigmoid", "sparsemax"]

/-- The names of ways to start weights. -/
def initializerNames : List String :=
  ["zeros", "Zeros", "zero", "ones", "Ones", "one", "constant", "Constant", "identity", "Identity",
    "IdentityInitializer", "orthogonal", "Orthogonal", "OrthogonalInitializer", "uniform", "normal",
    "random_normal", "RandomNormal", "random_uniform", "RandomUniform", "truncated_normal",
    "TruncatedNormal", "variance_scaling", "VarianceScaling", "glorot_normal", "GlorotNormal",
    "glorot_uniform", "GlorotUniform", "he_normal", "HeNormal", "he_uniform", "HeUniform",
    "lecun_normal", "LecunNormal", "lecun_uniform", "LecunUniform"]

/-- The names of penalties on weights. -/
def regularizerNames : List String :=
  ["l1", "L1", "l2", "L2", "l1l2", "L1L2", "l1_l2", "orthogonal_regularizer",
    "OrthogonalRegularizer"]

/-- The names of conditions on weights. -/
def constraintNames : List String :=
  ["max_norm", "MaxNorm", "non_neg", "NonNeg", "unit_norm", "UnitNorm", "min_max_norm",
    "MinMaxNorm"]

/-- The names of formats of entries. -/
def entryFormats : List String :=
  ["float16", "float32", "float64", "bfloat16", "uint8", "uint16", "uint32", "uint64", "int16",
    "int32", "int64", "int", "bool", "string", "complex64", "complex128"]

/-- A label is a text without a slash, or nothing. -/
def checkLabel (label : Value) : Except Fault Unit :=
  match label with
  | .null => .ok ()
  | .text s => if s.contains '/' then .error .wrongValue else .ok ()
  | _ => .error .wrongValue

namespace LayerOption

/-- The activation that a value names: nothing names the linear one. A record may describe a function
by its name. -/
def activation (v : Value) : Except Fault String :=
  let known (s : String) (otherwise : Fault) : Except Fault String :=
    if activationNames.contains s then .ok s else .error otherwise
  match v with
  | .null => .ok "linear"
  | .text s => known s .wrongValue
  | .record _ =>
    if (v.field? "class_name").isSome && (v.field? "config").isSome then
      match v.option "class_name", v.option "config", v.option "module" with
      | .text "function", .text s, .text "builtins" => known s .wrongKind
      | _, _, _ => .error .wrongKind
    else .error .wrongValue
  | _ => .error .wrongValue

/-- One of some names, a record with one of them as its class, or nothing. -/
def checkNamed (names : List String) (v : Value) : Except Fault Unit :=
  match v with
  | .null => .ok ()
  | .text s => if names.contains s then .ok () else .error .wrongValue
  | v =>
    match v.field? "class_name" with
    | some (.text s) => if names.contains s then .ok () else .error .wrongValue
    | _ => .error .wrongValue

/-- The formats that numbers pass through when they are stored under a name, none if the name is that
of a format without fractions. Numbers are made in single precision unless double is asked for. -/
def storage? (v : Value) : Option (List BinaryFormat) :=
  match v with
  | .null => some [.single]
  | .text s =>
    match s with
    | "float32" | "mixed_float16" | "mixed_bfloat16" => some [.single]
    | "float16" => some [.single, .half]
    | "bfloat16" => some [.single, .brief]
    | "float64" => some []
    | _ => none
  | _ => none

/-- The name of a format, of entries or of a mixture of formats. -/
def checkFormat (v : Value) : Except Fault Unit :=
  match v with
  | .null => .ok ()
  | .text s =>
    if (entryFormats ++ ["mixed_float16", "mixed_bfloat16"]).contains s then .ok ()
    else .error .wrongValue
  | _ => .error .wrongValue

/-- The start of random numbers: a whole number or nothing. -/
def checkSeed (v : Value) : Except Fault Unit :=
  if v.isNull || v.index?.isSome then .ok () else .error .wrongValue

/-- The dimensions of noise: positive whole numbers, or open ones. -/
def checkNoiseShape (v : Value) : Except Fault Unit :=
  match v with
  | .null => .ok ()
  | .list vs =>
    if vs.all fun v => v.isNull || v.index?.any (0 < ·) then .ok () else .error .wrongValue
  | _ => .error .wrongValue

/-- A number as it is compared with a bound. -/
def amount : Value → Except Fault Float
  | .int n => .ok (Parts.ofQuotient (decide (n < 0)) n.natAbs 1).toFloat
  | .text _ => .error .wrongKind
  | v => v.asReal

/-- A number that is not negative. -/
def notNegative : Value → Except Fault Float
  | .null => .error .wrongValue
  | v => do
    let x ← amount v
    if x < 0 then throw .wrongValue else return x

/-- A rate lies between zero and one. -/
def checkRate (rate : Value) : Except Fault Unit := do
  if (← rate.atLeast 0) && (← rate.atMost 1) then return else throw .wrongValue

/-- A finite number that is not negative, or nothing. -/
def checkPenalty (v : Value) : Except Fault Unit :=
  match v.number? with
  | some r => if r < 0 then .error .wrongValue else .ok ()
  | none => if v.isNull then .ok () else .error .wrongValue

end LayerOption

open LayerOption

/-- An option that is recognised by the end of its name. -/
def checkBySuffix (key : String) (v : Value) : Except Fault Unit :=
  if key.endsWith "_initializer" then checkNamed initializerNames v
  else if key.endsWith "_regularizer" then checkNamed regularizerNames v
  else if key.endsWith "_constraint" then checkNamed constraintNames v
  else .ok ()

/-- What holds for the options of every kind. -/
def checkCommon (options : Value) : Except Fault Unit := do
  checkLabel (options.option "name")
  checkFormat (options.option "dtype")
  match options.field? "trainable" with
  | none => pure ()
  | some (.bool _) => pure ()
  | some _ => throw .wrongValue
  match options with
  | .record fields => fields.forM fun (key, v) => checkBySuffix key v
  | _ => pure ()

/-- The names of options. -/
def optionNames : Value → List String
  | .record fields => fields.map (·.1)
  | _ => []

/-- No option is missing that is asked for, and then none is unknown. -/
def checkOptions (required allowed : List String) (options : Value) : Except Fault Unit := do
  if !required.all (optionNames options).contains then throw .wrongKind
  if !(optionNames options).all fun key => required.contains key || allowed.contains key then
    throw .wrongValue

end ReluMilp
