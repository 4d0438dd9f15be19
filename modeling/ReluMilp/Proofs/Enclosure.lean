import ReluMilp.Bounds.Interval
import ReluMilp.Proofs.Rectifying

/-!
# Intervals that enclose values

Every operation on intervals gives an interval of the result if it is given intervals of the operands.

* `Interval.Has.clamp`, `Interval.Has.scale`, `weighted_has` — one operation each;
* `Neuron.interval_has`, `Layer.intervals_has` — the affine values of a neuron and of a layer.
-/

namespace ReluMilp

open Scalar

namespace Interval.Has

variable {i : Interval Rat} {a : Rat}

theorem clamp (h : i.Has a) : i.clamp.Has (max 0 a) := by
  unfold Interval.clamp Interval.Has
  rw [relu_eq_max, relu_eq_max, max_comm 0 a]
  exact ⟨max_le_max h.1 le_rfl, max_le_max h.2 le_rfl⟩

/-- A negative weight exchanges the bounds. -/
theorem scale (h : i.Has a) (w : Rat) : (Interval.scale w i).Has (w * a) := by
  unfold Interval.scale Interval.Has
  rw [larger_eq_max, smaller_eq_min]
  rcases le_total 0 w with hw | hw
  · have hl := mul_le_mul_of_nonneg_left h.1 hw
    have hu := mul_le_mul_of_nonneg_left h.2 hw
    exact ⟨(min_le_right _ _).trans hl, hu.trans (le_max_left _ _)⟩
  · have hl := mul_le_mul_of_nonpos_left h.1 hw
    have hu := mul_le_mul_of_nonpos_left h.2 hw
    exact ⟨(min_le_left _ _).trans hu, hl.trans (le_max_right _ _)⟩

end Interval.Has

theorem weighted_has {is : List (Interval Rat)} {vs : List Rat} (h : List.Forall₂ Interval.Has is vs)
    (ws : List Rat) : (Interval.weighted ws is).Has (dot ws vs) := by
  induction h generalizing ws with
  | nil =>
    rw [dot_nil_right]
    unfold Interval.weighted
    rw [List.zipWith_nil_right]
    exact ⟨le_rfl, le_rfl⟩
  | @cons i a is vs hi _ ih =>
    cases ws with
    | nil => exact ⟨le_rfl, le_rfl⟩
    | cons w ws =>
      obtain ⟨hl, hu⟩ := ih ws
      obtain ⟨hl₁, hu₁⟩ := hi.scale w
      rw [dot_cons_cons]
      exact ⟨add_le_add hl₁ hl, add_le_add hu₁ hu⟩

theorem Neuron.interval_has (n : Neuron Rat) {is : List (Interval Rat)} {vs : List Rat}
    (h : List.Forall₂ Interval.Has is vs) : (n.interval is).Has (n.preactivation vs) := by
  obtain ⟨hl, hu⟩ := weighted_has h n.weights
  exact ⟨add_le_add hl le_rfl, add_le_add hu le_rfl⟩

/-- Intervals of the values that a layer reads, given before the rectifier if there is one. -/
def Encloses (rectified : Bool) (before : List (Interval Rat)) (vs : List Rat) : Prop :=
  List.Forall₂ Interval.Has (if rectified then before.map Interval.clamp else before) vs

/-- Intervals of what a layer reads give intervals of its affine values. -/
theorem Layer.intervals_has (l : Layer Rat) {rectified : Bool} {before : List (Interval Rat)}
    {vs : List Rat} (h : Encloses rectified before vs) :
    List.Forall₂ (fun n i => i.Has (n.preactivation vs)) l.neurons (l.intervals rectified before) := by
  unfold Layer.intervals
  rw [List.forall₂_map_right_iff, List.forall₂_same]
  exact fun n _ => n.interval_has h

end ReluMilp
