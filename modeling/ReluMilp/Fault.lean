/-!
# Faults

Why an operation is refused.

* `ParameterCause` — a precondition on a parameter does not hold;
* `ModelCause` — a network has no formulation;
* `Fault` — every reason of this library, those that carry a text of their own and those that are
  only a kind;
* `FaultKind` — the kinds, their names and the kinds they specialise.

`Fault.message?` is the one place where the wording stands.
-/

namespace ReluMilp

/-- The four bound vectors of a build. -/
inductive BoundVector where
  | inputUpper
  | inputLower
  | outputUpper
  | outputLower
  deriving Repr, DecidableEq

/-- What a message calls the vector. -/
def BoundVector.title : BoundVector → String
  | inputUpper => "Input upper bounds"
  | inputLower => "Input lower bounds"
  | outputUpper => "Output upper bounds"
  | outputLower => "Output lower bounds"

/-- The two sides of bounds, in a table or of a variable. -/
inductive Side where
  | upper
  | lower
  deriving Repr, DecidableEq

/-- What a message calls the side. -/
def Side.title : Side → String
  | upper => "upper"
  | lower => "lower"

/-- A precondition on a parameter that does not hold. -/
inductive ParameterCause where
  /-- The bounds of the previous layer have another length than the rows of the weights. -/
  | boundsLength (width : Nat)
  | weightsNotMatrix (rank : Nat)
  | biasLength (rows bias : Nat)
  | noLayer
  /-- Layer `layer + 1` does not read as many values as layer `layer` gives. -/
  | layerWidth (layer expected given : Nat)
  | arrayCount (weights biases : Nat)
  | missingVector (vector : BoundVector)
  | vectorLength (vector : BoundVector) (expected given : Nat)
  | boxNotFinite
  | boxCrossed
  | oneSidedTable
  | tableCount (side : Side) (layers given : Nat)
  | tableLength (side : Side) (layer width : Nat)
  | notNetwork (kind : String)
  | unknownMode (text : String)
  | notHidden (layer : String)
  | inputLength (given expected : Nat)
  | unsupportedSolver (name : String)
  | negativeThreads (text : String)
  | negativeTimeLimit (text : String)
  | unknownSettings (names : List String)
  deriving Repr, DecidableEq

namespace ParameterCause

/-- The wording. -/
def message : ParameterCause → String
  | boundsLength n => s!"Bounds of previous layer should have length {n}"
  | weightsNotMatrix r => s!"Layer weights should be a matrix, got {r} dimensions"
  | biasLength m b => s!"Non-conforming dimension between weights and bias: {m} != {b}"
  | noLayer => "A network needs at least one layer"
  | layerWidth k e g => s!"Layer {k + 1} expects {e} inputs but layer {k} has {g} outputs"
  | arrayCount w b => s!"Got {w} weight matrices but {b} bias vectors"
  | missingVector v => s!"Missing {v.title}"
  | vectorLength v e g => s!"{v.title} should have length {e} and has length {g}"
  | boxNotFinite => "Input bounds should be finite"
  | boxCrossed => "Input lower bounds are larger than upper bounds"
  | oneSidedTable => "Both upper and lower bounds should be given"
  | tableCount s e g =>
    s!"Precomputed {s.title} bounds should have one array per layer, {e} != {g}"
  | tableLength s k n => s!"Precomputed {s.title} bounds of layer {k} should have length {n}"
  | notNetwork k => s!"Expected a Network and got {k}"
  | unknownMode t =>
    s!"Unknown bound tightening mode {t}, should be one of fast, standard, output"
  | notHidden k => s!"Layer {k} is not a hidden layer"
  | inputLength g e => s!"Incorrect input length: {g} != {e}"
  | unsupportedSolver n => s!"Unsupported solver {n}, should be one of gurobi"
  | negativeThreads t => s!"Number of threads should be >= 0, got {t}"
  | negativeTimeLimit t => s!"Time limit should be >= 0, got {t}"
  | unknownSettings ns => "Unknown solver parameters: " ++ String.intercalate ", " ns

end ParameterCause

/-- Why a network has no formulation. -/
inductive ModelCause where
  | unknownActivation
  | hiddenActivation (layer : Nat) (name : String)
  | outputActivation (name : String)
  /-- A regressor with another activation than the rectifier. -/
  | regressorActivation (name : String)
  | regressorOutput (name : String)
  /-- A rectifier that does not follow an affine step of this title. -/
  | misplacedRectifier (after : String)
  | unsupportedStep (name : String)
  | unsupportedStackLayer (name : String)
  | unsupportedActivation (name : String)
  | leakyRectifier
  | shiftedRectifier
  | cappedRectifier
  | notBuilt
  /-- No affine step of this title. -/
  | noAffineStep (title : String)
  /-- A reason given by the caller. -/
  | stated (reason : String)
  deriving Repr, DecidableEq

namespace ModelCause

/-- The wording. -/
def message : ModelCause → String
  | unknownActivation => "No implementation for activation function"
  | hiddenActivation k a =>
    s!"hidden layer {k} uses {a}, only relu is supported for hidden layers"
  | outputActivation a => s!"output layer uses {a}, it should use the identity"
  | regressorActivation a => s!"No implementation for activation function {a}"
  | regressorOutput a => s!"Output activation should be identity not {a}"
  | misplacedRectifier t => s!"ReLU should directly follow a {t} layer"
  | unsupportedStep n => s!"Unsupported layer {n}"
  | unsupportedStackLayer n => s!"Unsupported network layer {n}"
  | unsupportedActivation n => s!"Unsupported activation {n}"
  | leakyRectifier => "Only handle ReLU layers with negative slope 0.0"
  | shiftedRectifier => "Only handle ReLU layers with threshold of 0.0"
  | cappedRectifier => "Only handle ReLU layers without maxvalue"
  | notBuilt => "Model is not built"
  | noAffineStep t => s!"No {t} layer in model"
  | stated r => r

end ModelCause

/-- A reason to refuse an operation. -/
inductive Fault where
  | parameter (cause : ParameterCause)
  /-- The subject is the name of the network, or of the kind of the predictor. -/
  | noModel (subject : String) (cause : ModelCause)
  | notRegistered (kind : String)
  | noSolution
  /-- A value of a kind that the operation does not take. -/
  | wrongKind
  /-- A value of the right kind that the operation does not take. -/
  | wrongValue
  | outOfRange
  | missingKey
  | missingMember
  /-- A whole number beyond the largest double, or an infinity as a whole number. -/
  | overflow
  /-- Texts where an operation on arrays takes numbers. -/
  | textOperand
  /-- An array that does not fit the place where it is stored. -/
  | misfit
  | divisionByZero
  /-- Something that is taken for granted does not hold. -/
  | violated
  /-- The optimisation model does not take what it is given. -/
  | refused
  | notFitted
  deriving Repr, DecidableEq

namespace Fault

/-- The text of the faults that have one. -/
def message? : Fault → Option String
  | parameter c => some c.message
  | noModel s c => some ("Can't do model for " ++ s ++ ": " ++ c.message)
  | notRegistered k => some s!"Object of type {k} is not registered/supported with nn2mip"
  | noSolution => some "No solution available"
  | _ => none

end Fault

/-! ### Kinds -/

/-- The kinds of faults that carry a text. -/
inductive FaultKind where
  | base
  | parameter
  | noModel
  | notRegistered
  | noSolution
  deriving Repr, DecidableEq

namespace FaultKind

/-- The published name of a kind. -/
def name : FaultKind → String
  | base => "NN2MIPError"
  | parameter => "ParameterError"
  | noModel => "NoModel"
  | notRegistered => "NotRegistered"
  | noSolution => "NoSolution"

/-- The kind with the given name. -/
def ofName? (s : String) : Option FaultKind :=
  [base, parameter, noModel, notRegistered, noSolution].find? (·.name = s)

/-- General kinds that stand between a kind and the base. -/
def meaning : FaultKind → List String
  | base => []
  | parameter => ["ValueError"]
  | noModel | notRegistered => ["NotImplementedError", "RuntimeError"]
  | noSolution => ["RuntimeError"]

/-- The kinds that a kind specialises, itself first. -/
def lineage (k : FaultKind) : List String :=
  (if k = base then [] else k.name :: k.meaning) ++ [base.name, "Exception", "BaseException", "object"]

end FaultKind

end ReluMilp
