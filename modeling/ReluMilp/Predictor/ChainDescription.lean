import ReluMilp.Number.Binary
import ReluMilp.Predictor.StepKinds
import ReluMilp.Tensor.Filling

/-!
# Descriptions of chains

A chain may be described by values: a step by weights, a bias and the format that they are stored
in, or by the name of its kind and arguments.

* `StepDescription`, `ChainDescription` — what is given;
* `Storage`, `StepDescription.storage` — how numbers are stored, by the name of a format;
* `StepDescription.step`, `ChainDescription.chain` — the step and the chain, or the first thing that
  is wrong with them.
-/

namespace ReluMilp

/-- A step as described. -/
inductive StepDescription where
  /-- Weights, a row per output, a bias if there is one, and the name of a format if it is not the
  usual one. -/
  | affine (weights : Value) (bias format : Option Value)
  /-- The name of a kind, and a list of arguments. -/
  | named (kind arguments : Value)

/-- A chain as described. -/
structure ChainDescription where
  kind : Value
  steps : List StepDescription

namespace StepDescription

/-- How numbers are stored: the formats that they pass through, and whether they can be read
again. -/
structure Storage where
  formats : List BinaryFormat
  readable : Bool

/-- Names of formats that numbers of steps cannot have: whole numbers, truth values and packed ones. -/
def wholeFormats : List String :=
  ["uint8", "int8", "int16", "short", "int32", "int", "int64", "long", "bool", "uint16", "uint32",
    "uint64", "qint8", "quint8", "qint32", "quint4x2", "quint2x4", "bits8", "bits16"]

/-- Names of formats that are not read. -/
def closedFormats : List String :=
  ["bfloat16", "complex32", "chalf", "float8_e4m3fn", "float8_e5m2", "float8_e4m3fnuz",
    "float8_e5m2fnuz", "float8_e8m0fnu"]

/-- Names that stand for something, but for no format. -/
def otherFormatNames : List String :=
  ["strided", "sparse_coo", "sparse_csr", "sparse_csc", "sparse_bsr", "sparse_bsc", "jagged",
    "contiguous_format", "channels_last", "channels_last_3d", "preserve_format", "inf", "nan", "pi",
    "e", "newaxis", "nn", "optim", "cuda", "cpu", "mps", "xpu", "jit", "linalg", "fft", "special",
    "utils", "random", "backends", "autograd", "distributed", "distributions", "hub", "onnx",
    "sparse", "testing", "quantization", "ao", "fx", "masked", "package", "profiler", "futures",
    "multiprocessing", "overrides", "version", "types", "storage", "serialization", "library",
    "compiler", "export", "func", "nested", "return_types", "Tensor", "Size", "Generator", "device",
    "dtype", "layout", "memory_format", "finfo", "iinfo", "qscheme", "FloatTensor", "DoubleTensor",
    "HalfTensor", "IntTensor", "LongTensor", "BoolTensor", "tensor", "as_tensor", "from_numpy",
    "zeros", "ones", "empty", "full", "eye", "arange", "linspace", "rand", "randn", "randint",
    "cat", "stack", "abs", "add", "sub", "mul", "div", "exp", "log", "sqrt", "sin", "cos", "tan",
    "relu", "sigmoid", "tanh", "softmax", "matmul", "mm", "dot", "sum", "mean", "max", "min",
    "round", "floor", "ceil", "sign", "clamp", "real", "imag", "angle", "conj", "polar", "complex",
    "any", "all", "save", "load", "no_grad", "enable_grad", "manual_seed", "seed", "sort", "topk",
    "where", "reshape", "flatten", "squeeze", "unsqueeze", "transpose", "set_default_dtype",
    "get_default_dtype", "is_tensor", "typename", "compile", "vmap", "__name__", "__version__"]

/-- The storage under a name. A number of half precision is made from one of single precision. -/
def storage : Value → Except Fault Storage
  | .text s =>
    match s with
    | "float32" | "float" | "complex64" | "cfloat" => .ok ⟨[.single], true⟩
    | "float64" | "double" | "complex128" | "cdouble" => .ok ⟨[], true⟩
    | "float16" | "half" => .ok ⟨[.single, .half], true⟩
    | s =>
      if closedFormats.contains s then .ok ⟨[], false⟩
      else if wholeFormats.contains s then .error .misfit
      else if otherFormatNames.contains s then .error .wrongKind
      else .error .missingMember
  | _ => .error .wrongKind

/-- A tensor as it is stored in formats. -/
def stored (fs : List BinaryFormat) (t : Tensor Float) : Tensor Float :=
  t.map fun x => fs.foldl (fun x f => f.store x) x

/-- A bias for `n` outputs: one number for all of them, or one for each. -/
def spreadBias (n : Nat) (t : Tensor Float) : Except Fault (Tensor Float) :=
  if t.shape = [] ∨ t.shape = [1] ∨ t.shape = [n] then .ok (.ofVector (t.spread [n]))
  else .error .misfit

/-- The affine step of weights and a bias. -/
def affineStep (weights : Value) (bias format : Option Value) : Except Fault (Step Float) := do
  let storage ← storage (format.getD (.text "float32"))
  let w ← Tensor.filled weights
  match w.shape with
  | [n, _] =>
    let b ← bias.mapM fun v => do spreadBias n (← Tensor.filled v)
    return if storage.readable then .affine (stored storage.formats w) (b.map (stored storage.formats))
      else .unreadable .wrongKind
  | _ :: _ :: _ => throw .misfit
  | _ => throw .outOfRange

/-- The step of a description. -/
def step : StepDescription → Except Fault (Step Float)
  | affine weights bias format => affineStep weights bias format
  | named (.text kind) arguments => do
    Step.ofKind kind (← arguments.items?.elim (.error .wrongKind) .ok)
  | named _ _ => .error .wrongKind

end StepDescription

/-- The chain of a description. -/
def ChainDescription.chain (d : ChainDescription) : Except Fault (StepChain Float) := do
  return ⟨← kindOr d.kind "Sequential", ← d.steps.mapM (·.step)⟩

end ReluMilp
