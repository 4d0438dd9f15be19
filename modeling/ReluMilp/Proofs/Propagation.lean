import ReluMilp.Bounds.Arrays
import ReluMilp.Proofs.Enclosure
import ReluMilp.Proofs.Requests

/-!
# Bounds of all layers over a box

Intervals go through a network layer by layer: those of the first layer come from the box, those of every
later one from the intervals of the layer before, cut by its rectifier.

* `preactivationsFrom`, `Network.preactivations` — the affine values of all layers on an input;
* `Encloses.next` — intervals of the affine values of a layer enclose what the next layer reads;
* `intervalsFrom_has` — intervals that go through layers enclose their affine values;
* `boundsOfArrays_enclose` — the bounds of a network over a box are those of the affine values of every
  input in it.
-/

namespace ReluMilp

open Scalar

/-! ### The affine values of all layers -/

section Values

variable {α : Type} [Scalar α]

/-- The affine values of consecutive layers; each layer reads what the one before gives. -/
def preactivationsFrom : List (Layer α) → List α → List (List α)
  | [], _ => []
  | l :: ls, v => l.preactivations v :: preactivationsFrom ls (l.eval v)

/-- The affine values of all layers on an input. -/
def Network.preactivations (n : Network α) (v : List α) : List (List α) := preactivationsFrom n.layers v

end Values

/-! ### Enclosure -/

/-- All layers of a network but the last have the rectifier. -/
theorem Network.dropLast_relu {α : Type} (n : Network α) :
    ∀ l ∈ n.layers.dropLast, l.activation = .relu := by
  unfold Network.layers
  rw [List.dropLast_concat]
  exact n.hidden_relu

/-- Intervals of the affine values of a layer with the rectifier enclose what the next layer reads. -/
theorem Encloses.next {l : Layer Rat} {is : List (Interval Rat)} {v : List Rat}
    (hl : l.activation = .relu) (h : List.Forall₂ Interval.Has is (l.preactivations v)) :
    Encloses true is (l.eval v) := by
  have hvalue : ∀ i a, Interval.Has i a → i.clamp.Has (Activation.relu.apply a) := by
    intro i a hi
    show i.clamp.Has (relu a)
    rw [relu_eq_max, max_comm]
    exact hi.clamp
  show List.Forall₂ Interval.Has (is.map Interval.clamp) ((l.preactivations v).map l.activation.apply)
  rw [hl, List.forall₂_map_left_iff, List.forall₂_map_right_iff]
  exact h.imp hvalue

/-- Intervals of what the first of some layers reads, pushed through all of them, enclose the affine values
of every layer. Only the last layer may lack the rectifier. -/
theorem intervalsFrom_has {ls : List (Layer Rat)} {rectified : Bool} {before : List (Interval Rat)}
    {v : List Rat} (hrelu : ∀ l ∈ ls.dropLast, l.activation = .relu) (h : Encloses rectified before v) :
    List.Forall₂ (List.Forall₂ Interval.Has) (intervalsFrom rectified before ls)
      (preactivationsFrom ls v) := by
  -- after the first layer the invariant is that the bounds before the rectifier hold
  induction ls generalizing rectified before v with
  | nil => exact .nil
  | cons l ls ih =>
    have hl : List.Forall₂ Interval.Has (l.intervals rectified before) (l.preactivations v) := by
      unfold Layer.preactivations
      rw [List.forall₂_map_right_iff]
      exact (l.intervals_has h).flip
    cases ls with
    | nil => exact .cons hl .nil
    | cons l' ls =>
      rw [List.dropLast_cons_cons, List.forall_mem_cons] at hrelu
      exact .cons hl (ih hrelu.2 (Encloses.next hrelu.1 hl))

/-- Bounds given as vectors are those that go through the network. -/
theorem boundsOfArrays_ofVector {α : Type} [Scalar α] (n : Network α) {us ls : List α} (hu : us.length = n.inputs)
    (hl : ls.length = n.inputs) : n.boundsOfArrays (.ok (.ofVector us)) (.ok (.ofVector ls)) =
      .ok (n.intervals (Interval.ofLists us ls)) := by
  have hshape : areVectors n.inputs (Tensor.ofVector us) (Tensor.ofVector ls) = true := by
    simp only [areVectors, Tensor.ofVector, hu, hl, decide_true, Bool.and_self]
  show (if areVectors n.inputs (Tensor.ofVector us) (Tensor.ofVector ls) then _ else _) = _
  rw [if_pos hshape]
  rfl

/-- The bounds of a network over a box, which has a pair of bounds for every input: one list per layer with
an interval for every neuron, and whatever lies in the box has its affine values in them. -/
theorem boundsOfArrays_enclose (n : Network Rat) (us ls : List Rat) (hu : us.length = n.inputs)
    (hl : ls.length = n.inputs) :
    ∃ bounds, n.boundsOfArrays (.ok (.ofVector us)) (.ok (.ofVector ls)) = .ok bounds ∧
      bounds.map List.length = n.neuronCount ∧
      ∀ v, List.Forall₂ (· ≤ ·) ls v → List.Forall₂ (· ≤ ·) v us →
        List.Forall₂ (List.Forall₂ Interval.Has) bounds (n.preactivations v) := by
  refine ⟨_, boundsOfArrays_ofVector n hu hl, n.length_intervals _, fun v hlv hvu => ?_⟩
  have hbox : Encloses false (Interval.ofLists us ls) v :=
    (forall₂_has_iff (hu.trans hl.symm)).2 ⟨hlv, hvu⟩
  exact intervalsFrom_has n.dropLast_relu hbox

theorem boundsOfArrays_enclose_absolute :
    ∃ bounds, Network.absolute.boundsOfArrays (.ok (.ofVector [1])) (.ok (.ofVector [-1])) = .ok bounds ∧
      bounds.map List.length = [2, 1] ∧
      List.Forall₂ (List.Forall₂ Interval.Has) bounds [[1 / 2, -1 / 2], [1 / 2]] := by
  obtain ⟨bounds, hb, hlen, hall⟩ := boundsOfArrays_enclose Network.absolute [1] [-1] rfl rfl
  have hv := hall [1 / 2] (.cons (by norm_num) .nil) (.cons (by norm_num) .nil)
  rw [show Network.absolute.preactivations [1 / 2] = [[1 / 2, -1 / 2], [1 / 2]] by decide +kernel] at hv
  exact ⟨bounds, hb, hlen, hv⟩

end ReluMilp
