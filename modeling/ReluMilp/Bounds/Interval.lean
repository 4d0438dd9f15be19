import ReluMilp.Network.Basic

/-!
# Interval bounds

* `Interval` — an upper and a lower bound of a value;
* `Interval.clamp` — the bounds after the rectifier, `Interval.improve` — the better of two bounds;
* `Neuron.interval` — the bounds of a neuron from those of its inputs;
* `Layer.intervals`, `Network.intervals` — of all neurons of a layer and of a network;
* `Layer.propagate` — of all neurons of a layer, if there are as many bounds as the layer reads values.

`Layer.length_intervals` and `Network.length_intervals`: one interval per neuron, one list per layer.
-/

namespace ReluMilp

variable {α : Type}

/-- An upper and a lower bound. -/
structure Interval (α : Type) where
  upper : α
  lower : α
  deriving Repr, DecidableEq

namespace Interval

/-- Pairs of upper and lower bounds, as many as the shorter list has. -/
def ofLists (uppers lowers : List α) : List (Interval α) := List.zipWith Interval.mk uppers lowers

variable [Scalar α]

/-- The bounds of a value after the rectifier. -/
def clamp (i : Interval α) : Interval α := ⟨Scalar.relu i.upper, Scalar.relu i.lower⟩

/-- The better of a known interval and of new bounds that may be missing. -/
def improve (i : Interval α) (upper lower : Option α) : Interval α :=
  ⟨Scalar.smaller i.upper (upper.getD i.upper), Scalar.larger i.lower (lower.getD i.lower)⟩

/-- The largest and the smallest product of a weight with a value of an interval. -/
def scale (w : α) (i : Interval α) : Interval α :=
  ⟨Scalar.larger (w * i.upper) (w * i.lower), Scalar.smaller (w * i.upper) (w * i.lower)⟩

/-- The bounds of a weighted sum of values of intervals. -/
def weighted (ws : List α) (is : List (Interval α)) : Interval α :=
  let terms := List.zipWith scale ws is
  ⟨(terms.map (·.upper)).sum, (terms.map (·.lower)).sum⟩

end Interval

variable [Scalar α]

/-- The bounds of the affine value of a neuron whose inputs have the given bounds. -/
def Neuron.interval (n : Neuron α) (inputs : List (Interval α)) : Interval α :=
  let s := Interval.weighted n.weights inputs
  ⟨s.upper + n.bias, s.lower + n.bias⟩

/-- The bounds of the affine values of a layer. With `rectified`, the given bounds are those of the
affine values of a layer before, whose rectifier comes first. -/
def Layer.intervals (l : Layer α) (rectified : Bool) (before : List (Interval α)) :
    List (Interval α) :=
  let inputs := if rectified then before.map Interval.clamp else before
  l.neurons.map (·.interval inputs)

@[simp] theorem Layer.length_intervals (l : Layer α) (rectified : Bool)
    (before : List (Interval α)) : (l.intervals rectified before).length = l.outputs := by
  simp [Layer.intervals, Layer.outputs]

/-- The bounds of the affine values of a layer, which takes as many bounds as it reads values. -/
def Layer.propagate (l : Layer α) (rectified : Bool) (before : List (Interval α)) :
    Except Fault (List (Interval α)) :=
  if before.length = l.inputs then .ok (l.intervals rectified before)
  else .error (.parameter (.boundsLength l.inputs))

/-- The bounds of the affine values of consecutive layers. -/
def intervalsFrom (rectified : Bool) (before : List (Interval α)) :
    List (Layer α) → List (List (Interval α))
  | [] => []
  | l :: ls =>
    let is := l.intervals rectified before
    is :: intervalsFrom true is ls

/-- The bounds of the affine values of all layers over a box of inputs. -/
def Network.intervals (n : Network α) (box : List (Interval α)) : List (List (Interval α)) :=
  intervalsFrom false box n.layers

theorem length_intervalsFrom (rectified : Bool) (before : List (Interval α)) (ls : List (Layer α)) :
    (intervalsFrom rectified before ls).map List.length = ls.map (·.outputs) := by
  induction ls generalizing rectified before with
  | nil => rfl
  | cons l ls ih => simp [intervalsFrom, ih]

/-- One list per layer, one interval per neuron. -/
theorem Network.length_intervals (n : Network α) (box : List (Interval α)) :
    (n.intervals box).map List.length = n.neuronCount :=
  length_intervalsFrom false box n.layers

end ReluMilp
