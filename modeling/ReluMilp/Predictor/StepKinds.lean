import ReluMilp.Predictor.StepChain
import ReluMilp.Predictor.StepChecks

/-!
# Kinds of steps

The kinds of steps that a chain may have. Most of them have no network, but a chain with an unknown
kind, or with a known one that is given wrong arguments, is no chain at all.

* `StepFamily`, `stepFamilies` — kinds that take the same arguments;
* `otherNames` — names that stand for something else than a kind of steps;
* `Step.ofKind` — a step from the name of its kind and its arguments.
-/

namespace ReluMilp

/-- Kinds of steps that take the same arguments: how many at least and at most, if there is a most,
and what is checked of them. -/
structure StepFamily where
  names : List String
  least : Nat
  most : Option Nat
  check : ArgumentsCheck

namespace StepFamily

open Argument Arguments

/-- Kinds whose arguments are not looked at. -/
def unchecked (least most : Nat) (names : List String) : StepFamily :=
  ⟨names, least, some most, each []⟩

/-- Kinds with a check of their arguments. -/
def checked (least most : Nat) (check : ArgumentsCheck) (names : List String) : StepFamily :=
  ⟨names, least, some most, check⟩

/-- A kind over one, two and three dimensions. -/
def numbered (name : String) (least most : Nat) (check : Nat → ArgumentsCheck) : List StepFamily :=
  [1, 2, 3].map fun rank => checked least most (check rank) [name ++ toString rank ++ "d"]

/-- The names of a kind over one, two and three dimensions. -/
def dimensions (name : String) : List String :=
  [1, 2, 3].map fun rank => name ++ toString rank ++ "d"

/-- Kinds that apply a function to every entry. -/
def functions : List StepFamily := [
  unchecked 0 0 ["Sigmoid", "Tanh", "LogSigmoid", "Softsign", "Tanhshrink", "Softmax2d"],
  unchecked 0 1 ["ReLU", "ReLU6", "Hardsigmoid", "Hardswish", "SiLU", "Mish", "SELU", "GLU", "GELU",
    "Hardshrink", "Softshrink", "Softmin", "LogSoftmax"],
  checked 0 1 (each [position]) ["Softmax"],
  unchecked 0 2 ["ELU", "CELU", "LeakyReLU", "Softplus"],
  unchecked 0 3 ["RReLU"],
  checked 0 4 (each [sizes, amount, device, nothing]) ["PReLU"],
  checked 0 5 checkRange ["Hardtanh"],
  unchecked 2 3 ["Threshold"],
  checked 0 2 (each [rate]) (["Dropout", "AlphaDropout", "FeatureAlphaDropout"]
    ++ dimensions "Dropout")]

/-- Kinds that hold other steps, or numbers. -/
def containers : List StepFamily := [
  ⟨["Sequential"], 0, none, fun as => as.forM nothing⟩,
  unchecked 0 0 ["Module", "Container"],
  checked 0 1 (each [holders]) ["ModuleList"],
  checked 0 1 (each [holderTable]) ["ModuleDict"],
  checked 0 1 (each [collection]) ["ParameterList"],
  checked 0 1 (each [nameTable]) ["ParameterDict"],
  unchecked 1 4 ["DataParallel"]]

/-- Kinds that compare two inputs. -/
def distances : List StepFamily := [
  unchecked 0 0 ["GaussianNLLLoss", "TripletMarginWithDistanceLoss"],
  unchecked 0 2 ["CosineSimilarity", "HuberLoss"],
  unchecked 0 3 ["PairwiseDistance", "L1Loss", "MSELoss", "CTCLoss", "MultiLabelMarginLoss",
    "SoftMarginLoss"],
  unchecked 0 4 ["KLDivLoss", "MarginRankingLoss", "HingeEmbeddingLoss", "SmoothL1Loss",
    "CosineEmbeddingLoss"],
  unchecked 0 6 ["PoissonNLLLoss"],
  checked 0 7 (each [positive]) ["TripletMarginLoss"],
  checked 0 4 (each [nothing]) ["BCELoss", "MultiLabelSoftMarginLoss"],
  checked 0 5 (each [nothing]) ["NLLLoss", "NLLLoss2d"],
  checked 0 5 (each [nothing, free, free, free, nothing]) ["BCEWithLogitsLoss"],
  checked 0 6 (each [nothing]) ["CrossEntropyLoss"],
  checked 0 6 (fun as => do each [free, free, nothing] as; each [order] as) ["MultiMarginLoss"],
  checked 3 7 checkCutoffs ["AdaptiveLogSoftmaxWithLoss"]]

/-- Kinds that move entries, or take some of them together. -/
def arrangements : List StepFamily := [
  unchecked 0 2 ["Flatten"],
  checked 2 2 checkUnfolding ["Unflatten"],
  unchecked 2 5 ["Fold"],
  unchecked 1 4 ["Unfold", "LocalResponseNorm", "CrossMapLRN2d"],
  unchecked 1 1 (["PixelShuffle", "PixelUnshuffle", "ChannelShuffle"]
    ++ ["ReflectionPad", "ReplicationPad", "ZeroPad", "CircularPad", "AdaptiveAvgPool"].flatMap
      dimensions),
  unchecked 2 2 (dimensions "ConstantPad"),
  unchecked 1 2 (dimensions "AdaptiveMaxPool"),
  unchecked 1 3 (dimensions "MaxUnpool"),
  unchecked 1 6 (dimensions "MaxPool" ++ ["AvgPool2d", "AvgPool3d"]),
  unchecked 1 5 ["AvgPool1d"],
  unchecked 2 4 (dimensions "LPPool"),
  checked 1 5 (checkFractional 2) ["FractionalMaxPool2d"],
  checked 1 5 (checkFractional 3) ["FractionalMaxPool3d"],
  checked 0 5 (each [free, scale]) ["Upsample"],
  checked 0 2 (each [free, scale]) ["UpsamplingNearest2d", "UpsamplingBilinear2d"]]

/-- Kinds with weights. -/
def weighted : List StepFamily :=
  numbered "Conv" 3 11 (checkConvolution false)
    ++ numbered "LazyConv" 2 10 (checkConvolution true)
    ++ numbered "ConvTranspose" 3 12 (checkTransposed false)
    ++ numbered "LazyConvTranspose" 2 11 (checkTransposed true)
    ++ [
  unchecked 1 4 ["LazyLinear"],
  checked 3 6 checkBilinear ["Bilinear"],
  checked 1 7 (checkNormalization true 5) (dimensions "BatchNorm"),
  checked 1 7 (checkNormalization false 5) (dimensions "InstanceNorm"),
  checked 1 8 (checkNormalization true 6) ["SyncBatchNorm"],
  unchecked 0 6 (dimensions "LazyBatchNorm" ++ dimensions "LazyInstanceNorm"),
  checked 1 6 (checkNormalizedShape 2) ["LayerNorm"],
  checked 1 5 (checkNormalizedShape 2) ["RMSNorm"],
  checked 2 6 checkGroups ["GroupNorm"],
  ⟨["RNN"], 0, some 11, checkPlainRecurrent⟩,
  checked 2 10 checkRecurrent ["LSTM", "GRU"],
  checked 3 11 checkNamedRecurrent ["RNNBase"],
  checked 4 6 checkCellOf ["RNNCellBase"],
  checked 2 6 (checkCell 4) ["RNNCell"],
  checked 2 5 (checkCell 3) ["LSTMCell", "GRUCell"],
  checked 2 11 (checkTable 2 7 9) ["Embedding"],
  checked 2 12 (checkTable 9 7 10) ["EmbeddingBag"],
  checked 2 11 checkAttention ["MultiheadAttention"],
  checked 2 11 checkAttentionBlock ["TransformerEncoderLayer", "TransformerDecoderLayer"],
  checked 2 5 checkCopies ["TransformerEncoder"],
  checked 2 3 checkCopies ["TransformerDecoder"],
  checked 0 15 checkTransformer ["Transformer"]]

end StepFamily

/-- The kinds of steps. -/
def stepFamilies : List StepFamily :=
  StepFamily.functions ++ StepFamily.containers ++ StepFamily.distances ++ StepFamily.arrangements
    ++ StepFamily.weighted

/-- Names that stand for something, but for no kind of steps. -/
def otherNames : List String :=
  ["functional", "init", "modules", "parallel", "parameter", "utils", "attention", "common_types",
    "grad", "backends", "intrinsic", "qat", "quantizable", "quantized", "factory_kwargs",
    "Parameter", "Buffer", "UninitializedParameter", "UninitializedBuffer", "_reduction",
    "__name__", "__doc__", "__file__", "__path__", "__package__", "__loader__", "__spec__",
    "__builtins__", "__dict__", "__cached__"]

/-- The step of a kind with arguments; the identity takes any. -/
def Step.ofKind {α : Type} (name : String) (arguments : List Value) : Except Fault (Step α) :=
  if name = "Identity" then .ok .identity
  else
    match stepFamilies.find? fun f => f.names.contains name with
    | none => .error (if otherNames.contains name then .wrongKind else .missingMember)
    | some f =>
      if arguments.length < f.least || f.most.any (· < arguments.length) then .error .wrongKind
      else do
        f.check arguments
        return match name with
          | "ReLU" => .rectifier
          | "Dropout" => .dropout
          | "LazyLinear" => .unreadable .wrongValue
          | _ => .other name

end ReluMilp
