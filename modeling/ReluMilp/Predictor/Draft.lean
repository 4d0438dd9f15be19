import ReluMilp.Network.Basic

/-!
# Layers under construction

Predictors that are read piece by piece give a layer first and its activation later.

* `Draft` — weights, bias and the activation known so far;
* `Draft.rectify?` — the rectifier on the layer collected last;
* `Draft.network` — the network of the collected layers.

Drafts are collected with the last one in front.
-/

namespace ReluMilp

/-- A layer as collected so far. -/
structure Draft (α : Type) where
  weights : Tensor α
  bias : Tensor α
  activation : Activation

namespace Draft

variable {α : Type}

/-- As many zeros as a dimension says. -/
def zeros [Zero α] (n : Option Nat) : Tensor α := .ofVector (List.replicate (n.getD 0) 0)

/-- The rectifier on the last layer; it goes there only once. -/
def rectify? : List (Draft α) → Option (List (Draft α))
  | [] => none
  | d :: ds =>
    match d.activation with
    | .identity => some ({ d with activation := .relu } :: ds)
    | .relu => none

/-- The network of collected layers. -/
def network (drafts : List (Draft α)) (name : Value) : Except Fault (Network α) := do
  let layers ← drafts.reverse.mapM fun d => Layer.ofTensors d.weights d.bias d.activation
  Network.ofLayers layers name

end Draft

/-- The given name, or another one if none is given. -/
def nameOr (given : Value) (otherwise : Value) : Value :=
  match given with
  | .null => otherwise
  | v => v

/-- The name of a kind: the given one, or another one if none is given. It holds no character zero. -/
def kindOr (given : Value) (otherwise : String) : Except Fault String :=
  match given with
  | .text s =>
    if s.contains (Char.ofNat 0) then .error .wrongValue
    else .ok (if s.isEmpty then otherwise else s)
  | v => if v.truth then .error .wrongKind else .ok otherwise

end ReluMilp
