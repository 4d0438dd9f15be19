import ReluMilp.Predictor.Draft

/-!
# Stacks of layers

A predictor whose layers carry their activation with them or take it from an extra layer.

* `StackLayer`, `LayerStack` — the predictor;
* `LayerStack.network` — the network that computes the same.
-/

namespace ReluMilp

variable {α : Type}

/-- One layer of a stack. -/
inductive StackLayer (α : Type) where
  /-- Weights, a row per input, a bias that may be missing, and the name of an activation. -/
  | dense (kernel : Tensor α) (bias : Option (Tensor α)) (activation : String)
  /-- A rectifier with its slope below zero, the point where it starts and its largest value. -/
  | rectifier (slope threshold : α) (maxValue : Option α)
  | activation (name : String)
  | dropout
  | input
  | other (name : String)

/-- A stack: the name of its kind, its own name, and whether the widths of its layers are known. -/
structure LayerStack (α : Type) where
  kind : String
  name : Value
  built : Bool
  layers : List (StackLayer α)

namespace LayerStack

variable [Scalar α]

/-- What keeps a rectifier from being the plain one. -/
def rectifierFault? (slope threshold : α) (maxValue : Option α) : Option ModelCause :=
  if !Scalar.isZero slope then some .leakyRectifier
  else if !Scalar.isZero threshold then some .shiftedRectifier
  else if maxValue.isSome then some .cappedRectifier
  else none

/-- The first name of an activation; some go by a second one. -/
def firstName (name : String) : String :=
  if name = "swish" then "silu"
  else if name = "hard_swish" then "hard_silu"
  else name

/-- The activation that a name in a stack stands for. -/
def activation? (name : String) : Option Activation :=
  if name = "relu" then some .relu
  else if name = "linear" then some .identity
  else none

/-- The rectifier on the layer collected last. -/
def rectified (kind : String) (drafts : List (Draft α)) : Except Fault (List (Draft α)) :=
  match Draft.rectify? drafts with
  | some ds => .ok ds
  | none => .error (.noModel kind (.misplacedRectifier "Dense"))

/-- The layers of a stack. -/
def collect (kind : String) :
    List (Draft α) → List (StackLayer α) → Except Fault (List (Draft α))
  | drafts, [] => .ok drafts
  | drafts, .dense k b name :: rest =>
    match activation? name with
    | some a => collect kind (⟨k.transpose, b.getD (Draft.zeros k.shape[1]?), a⟩ :: drafts) rest
    | none => .error (.noModel kind (.unsupportedActivation (firstName name)))
  | drafts, .rectifier slope threshold maxValue :: rest =>
    match rectifierFault? slope threshold maxValue with
    | some c => .error (.noModel kind c)
    | none => do collect kind (← rectified kind drafts) rest
  | drafts, .activation name :: rest =>
    match activation? name with
    | some .relu => do collect kind (← rectified kind drafts) rest
    | some .identity => collect kind drafts rest
    | none => .error (.noModel kind (.unsupportedActivation (firstName name)))
  | drafts, .dropout :: rest => collect kind drafts rest
  | drafts, .input :: rest => collect kind drafts rest
  | _, .other name :: _ => .error (.noModel kind (.unsupportedStackLayer name))

/-- The network of a stack, by default under its own name. -/
def network (s : LayerStack α) (name : Value) : Except Fault (Network α) := do
  if s.built then
    match ← collect s.kind [] s.layers with
    | [] => .error (.noModel s.kind (.noAffineStep "Dense"))
    | ds => Draft.network ds (nameOr name s.name)
  else .error (.noModel s.kind .notBuilt)

end LayerStack

end ReluMilp
