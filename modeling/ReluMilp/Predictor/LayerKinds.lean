import ReluMilp.Predictor.LayerShapes
import ReluMilp.Predictor.LayerStack

/-!
# Kinds of layers

The kinds of layers that a stack may have, with the options that they ask for and allow. Most of
them have no network, but a stack with an unknown kind or with wrong options is no stack at all.

* `Taken`, `LayerKind`, `layerKinds` — the kinds, and what each of them takes;
* `joiningNames` — names of functions that join layers;
* `StackLayer.ofKind` — a layer from its kind and its options.
-/

namespace ReluMilp

/-- What a kind of layers takes. -/
inductive Taken where
  /-- Vectors, and deeper arrays. -/
  | vectors
  /-- Arrays with this many dimensions. -/
  | rank (n : Nat)
  /-- Nothing that a single layer before it gives. -/
  | nothing
  deriving Repr, DecidableEq

/-- A kind of layers with the options that it asks for and those that it allows, all if none are
said. -/
structure LayerKind where
  name : String
  required : List String
  optional : Option (List String)
  taken : Taken

/-- The options of every kind. -/
def commonOptions : List String :=
  ["name", "trainable", "dtype", "autocast", "activity_regularizer", "input_dim", "input_shape"]

/-- The options of affine layers. -/
def denseOptions : List String :=
  ["activation", "kernel_initializer", "bias_initializer", "kernel_regularizer",
    "bias_regularizer", "kernel_constraint", "bias_constraint", "lora_rank", "lora_alpha",
    "quantization_config"]

/-- The options of layers that declare an input. -/
def inputOptions : List String :=
  ["shape", "batch_size", "dtype", "sparse", "ragged", "batch_shape", "input_tensor", "optional",
    "name", "input_shape", "batch_input_shape"]

/-- The options of a declared input. -/
def declarationOptions : List String :=
  ["shape", "batch_size", "dtype", "sparse", "ragged", "batch_shape", "name", "tensor", "optional"]

/-- The options of a centre and a scale that are learned. -/
def scalingOptions : List String :=
  ["axis", "epsilon", "center", "scale", "beta_initializer", "gamma_initializer",
    "beta_regularizer", "gamma_regularizer", "beta_constraint", "gamma_constraint"]

/-- The options of layers that change images. -/
def imageOptions : List String :=
  ["factor", "value_range", "seed", "data_format", "bounding_box_format", "interpolation",
    "fill_mode", "fill_value"]

namespace LayerKind

/-- A kind that takes vectors. -/
def ofVectors (name : String) (required optional : List String) : LayerKind :=
  ⟨name, required, some (optional ++ commonOptions), .vectors⟩

/-- The kinds that take vectors. -/
def vectorKinds : List LayerKind := [
  ofVectors "Activation" ["activation"] [],
  ofVectors "ReLU" [] ["max_value", "negative_slope", "threshold"],
  ofVectors "LeakyReLU" [] ["negative_slope", "alpha"],
  ofVectors "PReLU" [] ["alpha_initializer", "alpha_regularizer", "alpha_constraint",
    "shared_axes"],
  ofVectors "ELU" [] ["alpha"],
  ofVectors "Softmax" [] ["axis"],
  ofVectors "Identity" [] [],
  ofVectors "Masking" [] ["mask_value"],
  ofVectors "Rescaling" ["scale"] ["offset"],
  ofVectors "Dropout" ["rate"] ["noise_shape", "seed"],
  ofVectors "AlphaDropout" ["rate"] ["noise_shape", "seed"],
  ofVectors "GaussianDropout" ["rate"] ["seed"],
  ofVectors "GaussianNoise" ["stddev"] ["seed"],
  ofVectors "ActivityRegularization" [] ["l1", "l2"],
  ofVectors "BatchNormalization" [] (scalingOptions ++ ["momentum", "moving_mean_initializer",
    "moving_variance_initializer", "synchronized"]),
  ofVectors "LayerNormalization" [] scalingOptions,
  ofVectors "GroupNormalization" [] (scalingOptions ++ ["groups"]),
  ofVectors "RMSNormalization" [] ["axis", "epsilon"],
  ofVectors "UnitNormalization" [] ["axis"],
  ofVectors "Normalization" [] ["axis", "mean", "variance", "invert"],
  ofVectors "Flatten" [] ["data_format"],
  ofVectors "Permute" ["dims"] [],
  ofVectors "Reshape" ["target_shape"] [],
  ofVectors "RepeatVector" ["n"] [],
  ofVectors "Embedding" ["input_dim", "output_dim"] ["embeddings_initializer",
    "embeddings_regularizer", "embeddings_constraint", "mask_zero", "weights", "lora_rank",
    "lora_alpha", "input_length", "quantization_config"],
  ofVectors "ReversibleEmbedding" ["input_dim", "output_dim"] ["tie_weights",
    "embeddings_initializer", "embeddings_regularizer", "embeddings_constraint", "mask_zero",
    "reverse_dtype", "logit_soft_cap", "lora_rank", "lora_alpha", "quantization_config"],
  ofVectors "EinsumDense" ["equation", "output_shape"] (denseOptions ++ ["bias_axes"]),
  ofVectors "Lambda" ["function"] ["output_shape", "mask", "arguments"],
  ofVectors "Layer" [] [],
  ofVectors "Discretization" [] ["bin_boundaries", "num_bins", "epsilon", "output_mode", "sparse"],
  ofVectors "CategoryEncoding" [] ["num_tokens", "output_mode", "sparse"],
  ofVectors "Hashing" ["num_bins"] ["mask_value", "salt", "output_mode", "sparse"],
  ofVectors "MelSpectrogram" [] ["fft_length", "sequence_stride", "sequence_length", "window",
    "sampling_rate", "num_mel_bins", "min_freq", "max_freq", "power_to_db", "top_db",
    "mag_exp", "min_power", "ref_power"]]

/-- Kinds that take arrays of any rank, by the options that they ask for. -/
def anyRankNames : List (List String × List String) := [
  ([], ["AutoContrast", "AugMix", "CutMix", "Equalization", "MixUp", "RandAugment",
    "RandomColorJitter", "RandomElasticTransform", "RandomErasing", "RandomFlip",
    "RandomGaussianBlur", "RandomGrayscale", "RandomInvert", "RandomPerspective", "RandomShear",
    "Solarization", "IntegerLookup", "StringLookup", "TextVectorization"]),
  (["factor"], ["RandomBrightness", "RandomColorDegeneration", "RandomContrast", "RandomHue",
    "RandomPosterization", "RandomRotation", "RandomSaturation", "RandomSharpness"]),
  (["height_factor"], ["RandomZoom"]),
  (["height_factor", "width_factor"], ["RandomTranslation"]),
  (["max_number"], ["MaxNumBoundingBoxes"]),
  (["height", "width"], ["Resizing", "RandomCrop"]),
  (["output_size"], ["AdaptiveAveragePooling1D", "AdaptiveAveragePooling2D",
    "AdaptiveAveragePooling3D", "AdaptiveMaxPooling1D", "AdaptiveMaxPooling2D",
    "AdaptiveMaxPooling3D"])]

/-- The beginnings of names of kinds over one dimension, two dimensions and so on, with how many there
are, the ends of the names and the options that they ask for. -/
def dimensionedNames : List (List String × Nat × String × List String) := [
  ([], 3, "", ["MaxPooling", "AveragePooling", "GlobalMaxPooling", "GlobalAveragePooling", "MaxPool",
    "AvgPool", "GlobalMaxPool", "GlobalAvgPool", "ZeroPadding", "Cropping", "UpSampling"]),
  (["rate"], 3, "", ["SpatialDropout"]),
  (["filters", "kernel_size"], 3, "", ["Conv", "Convolution"]),
  (["filters", "kernel_size"], 2, "", ["SeparableConv", "SeparableConvolution"]),
  (["filters", "kernel_size"], 3, "Transpose", ["Conv", "Convolution"]),
  (["kernel_size"], 2, "", ["DepthwiseConv"])]

/-- Kinds over sequences, by the options that they ask for. -/
def sequenceNames : List (List String × List String) := [
  (["units"], ["LSTM", "GRU", "SimpleRNN"])]

/-- Kinds that take no single array, by the options that they ask for. -/
def joinedNames : List (List String × List String) := [
  ([], ["Add", "Average", "Concatenate", "Maximum", "Minimum", "Multiply", "Subtract", "Attention",
    "AdditiveAttention", "STFTSpectrogram"]),
  (["height", "width"], ["CenterCrop"]),
  (["axes"], ["Dot"]),
  (["units"], ["LSTMCell", "GRUCell", "SimpleRNNCell"]),
  (["cell"], ["RNN"]),
  (["cells"], ["StackedRNNCells"]),
  (["layer"], ["Bidirectional", "TimeDistributed", "SpectralNormalization", "Wrapper"]),
  (["num_heads", "key_dim"], ["MultiHeadAttention"]),
  (["head_dim", "num_query_heads", "num_key_value_heads"], ["GroupQueryAttention",
    "GroupedQueryAttention"]),
  (["num_bins"], ["HashedCrossing"]),
  (["layers"], ["Pipeline"]),
  (["call_fn"], ["JaxLayer"]),
  (["module"], ["FlaxLayer", "TorchModuleWrapper"]),
  (["filepath"], ["TFSMLayer"])]

/-- Kinds with names in groups that take the same. -/
def grouped (taken : Taken) (groups : List (List String × List String)) : List LayerKind :=
  groups.flatMap fun (required, names) => names.map fun name => ⟨name, required, none, taken⟩

/-- Kinds over one dimension and more; one more is that of channels. -/
def dimensioned : List LayerKind :=
  dimensionedNames.flatMap fun (required, most, ending, names) => names.flatMap fun name =>
    ([1, 2, 3].take most).map fun n =>
      ⟨name ++ toString n ++ "D" ++ ending, required, none, .rank (n + 1)⟩

/-- Kinds over sequences of arrays with one, two and three dimensions. -/
def sequenced : List LayerKind :=
  [1, 2, 3].map fun n =>
    ⟨"ConvLSTM" ++ toString n ++ "D", ["filters", "kernel_size"], none, .rank (n + 2)⟩

end LayerKind

/-- All kinds but affine layers and those that declare an input. -/
def layerKinds : List LayerKind :=
  LayerKind.vectorKinds ++ LayerKind.grouped .vectors LayerKind.anyRankNames
    ++ LayerKind.dimensioned ++ LayerKind.sequenced
    ++ LayerKind.grouped (.rank 2) LayerKind.sequenceNames
    ++ LayerKind.grouped .nothing LayerKind.joinedNames

/-- Names of functions that join layers, and of other things that take what is no option. -/
def joiningNames : List String :=
  ["add", "average", "concatenate", "dot", "maximum", "minimum", "multiply", "subtract", "serialize",
    "deserialize", "__name__", "__doc__", "__file__", "__path__", "__package__", "__loader__",
    "__spec__", "__builtins__", "__dict__", "__cached__"]

namespace StackLayer

open LayerOption

/-- One of two bounds is given: boundaries, or how many there are. -/
def checkBins (options : Value) : Except Fault Unit :=
  if (options.option "bin_boundaries").isNull = (options.option "num_bins").isNull then .error .wrongValue
  else .ok ()

/-- A number of kinds of entries. -/
def checkTokens (v : Value) : Except Fault Unit := do
  if v.isNull then throw .wrongValue
  if !(← v.atLeast 1) then throw .wrongValue

/-- An axis, or a list of axes. -/
def checkAxis (v : Value) : Except Fault Unit :=
  match v with
  | .list _ => .ok ()
  | v => if v.index?.isSome then .ok () else .error .wrongKind

/-- All dimensions in some order, counted from one. -/
def checkOrder (v : Value) : Except Fault Unit := do
  let items ← v.items?.elim (.error .wrongKind) .ok
  let named := items.filterMap Value.number?
  if named.length ≠ items.length then
    throw (if named.isEmpty && !items.any Value.isNull then .wrongValue else .wrongKind)
  let wanted : List Rat := (List.range items.length).map fun (k : Nat) => (k + 1 : Rat)
  if !wanted.all named.contains then throw .wrongValue

/-- A rate with what random numbers need unless it is zero. -/
def checkRandom (options : Value) (key : String) : Except Fault Unit := do
  let rate := options.option key
  checkRate rate
  checkNoiseShape (options.option "noise_shape")
  if !(← rate.atMost 0) then checkSeed (options.option "seed")

/-- How entries of images are arranged. -/
def checkArrangement (v : Value) : Except Fault Unit :=
  if v.isNull || ["channels_first", "channels_last"].contains (lower v.asText) then .ok ()
  else .error .wrongValue

/-- The layer of a known kind with options. -/
def ofKind (kind : String) (options : Value) : Except Fault (StackLayer Float) := do
  let option (key : String) (absent : Value) : Value := (options.field? key).getD absent
  match kind with
  | "Activation" => return .activation (← LayerOption.activation (options.option "activation"))
  | "ReLU" =>
    let largest ← match options.option "max_value" with
      | .null => pure none
      | v => do pure (some (← notNegative v))
    return .rectifier (← notNegative (option "negative_slope" (.int 0)))
      (← notNegative (option "threshold" (.int 0))) largest
  | "Dropout" | "SpatialDropout1D" | "SpatialDropout2D" | "SpatialDropout3D" =>
    checkRandom options "rate"
    return .dropout
  | _ =>
    match kind with
    | "LeakyReLU" =>
      let _ ← notNegative (option "alpha" (option "negative_slope" (.int 0)))
    | "AlphaDropout" | "GaussianDropout" => checkRandom options "rate"
    | "GaussianNoise" => checkRandom options "stddev"
    | "ActivityRegularization" =>
      if (options.field? "activity_regularizer").isSome then throw .wrongKind
      checkPenalty (options.option "l1")
      checkPenalty (options.option "l2")
    | "BatchNormalization" =>
      let _ ← (option "axis" (.int (-1))).truncated
    | "LayerNormalization" | "RMSNormalization" | "UnitNormalization" =>
      checkAxis (option "axis" (.int (-1)))
    | "Normalization" =>
      if (options.option "mean").isNull ≠ (options.option "variance").isNull then throw .wrongValue
    | "Flatten" => checkArrangement (options.option "data_format")
    | "Permute" => checkOrder (options.option "dims")
    | "Reshape" => if (options.option "target_shape").items?.isNone then throw .wrongKind
    | "RepeatVector" =>
      match (options.option "n").index? with
      | none => throw .wrongKind
      | some n => if n ≤ 0 then throw .wrongValue
    | "Discretization" => checkBins options
    | "CategoryEncoding" => checkTokens (options.option "num_tokens")
    | "LSTM" | "GRU" | "SimpleRNN" | "LSTMCell" | "GRUCell" | "SimpleRNNCell" =>
      if ← (options.option "units").atMost 0 then throw .wrongValue
    | "RNN" | "StackedRNNCells" | "Bidirectional" | "TimeDistributed" | "SpectralNormalization"
    | "Wrapper" => throw .wrongValue
    | _ => pure ()
    return .other kind

end StackLayer

end ReluMilp
