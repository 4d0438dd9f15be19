import ReluMilp.Proofs.Completeness

/-!
# Networks in a relaxed model

Optimisation may look at a model whose binary variables take every value from zero to one. The rows of a
hidden neuron say less there, but its value still lies in its interval, cut by the rectifier.

* `LooseBigM` — what the variables and rows of a hidden neuron say there; `LooseBigM.clamp_has` — an
  interval of the affine value gives one of the value;
* `HiddenUnit.Stands.loosened_iff`, `LayerAdded.loosened_iff` — a neuron and a layer in such a model;
* `layerBounds_loosened` — the bounds of a layer enclose its affine values there as well;
* `encloses_loose` — so that they enclose what the next layer reads.
-/

namespace ReluMilp

open Scalar

/-! ### The box -/

/-- With the inputs and their rows, a model that may be relaxed is feasible where it was and where the inputs
lie in the box. -/
theorem Request.Assembles.loosened_boxed {solver : Solver Rat} {r : Request Rat} {s : Assembled Rat}
    {stem : Stem Rat} {relax : Bool} {x : Assignment Rat} {w w₁ w₂ w' : Workspace Rat}
    (h : r.Assembles solver s stem w w₁ w₂ w')
    (hr : r.WellFormed) : (w₁.model.loosened relax).Feasible x ↔
      (w.model.loosened relax).Feasible x ∧ List.Forall₂ Interval.Has r.box (s.body.inputs.map x) := by
  have hin : s.body.inputs.length = r.box.length := by
    rw [h.inputs, List.length_range', hr.box_length]
  have hrows : ∀ m : Model Rat, (m.withRows (r.boxDrafts s.body.inputs)).loosened relax =
      (m.loosened relax).withRows (r.boxDrafts s.body.inputs) := by
    intro m
    cases relax <;> rfl
  obtain ⟨t, ht⟩ := h.boxed
  rw [ht, hrows, feasible_withRows, Model.loosened_withVars, feasible_withFree]
  exact and_congr_right fun _ => holds_boxDrafts hin

/-! ### Values of a hidden neuron -/

/-- What the variables and rows of a hidden neuron say for an interval if its binary variable may take
every value from zero to one. -/
structure LooseBigM (relax : Bool) (i : Interval Rat) (p a s z : Rat) : Prop where
  value_nonneg : 0 ≤ a
  slack_nonneg : 0 ≤ s
  switch : 0 ≤ z ∧ z ≤ 1
  whole : relax = false → z = 0 ∨ z = 1
  upper : a + max 0 i.upper * z ≤ max 0 i.upper
  lower : s - max 0 (-i.lower) * z ≤ 0
  affine : a - s = p

section Values

variable {relax : Bool} {i j : Interval Rat} {p a s z : Rat}

theorem BigM.loose (h : BigM i p a s z) (relax : Bool) : LooseBigM relax i p a s z := by
  refine ⟨h.value_nonneg, h.slack_nonneg, ?_, fun _ => h.switch, h.upper, h.lower, h.affine⟩
  rcases h.switch with rfl | rfl
  · exact ⟨le_rfl, zero_le_one⟩
  · exact ⟨zero_le_one, le_rfl⟩

/-- An interval of the affine value, cut by the rectifier, holds the value. -/
theorem LooseBigM.clamp_has (h : LooseBigM relax i p a s z) (hi : i.Has p) : i.clamp.Has a := by
  have ha := h.value_nonneg
  unfold Interval.clamp Interval.Has
  rw [relu_eq_max, relu_eq_max]
  constructor
  · rcases le_total i.lower 0 with hneg | hpos
    · rwa [max_eq_right hneg]
    · -- a neuron that is always on has no slack
      have hlower := h.lower
      rw [max_eq_left (neg_nonpos.2 hpos), zero_mul, sub_zero] at hlower
      have hpa : p ≤ a := by linarith [h.affine, h.slack_nonneg]
      rw [max_eq_left hpos]
      exact hi.1.trans hpa
  · have hupper := h.upper
    have hoff : 0 ≤ max 0 i.upper * z := mul_nonneg (le_max_left _ _) h.switch.1
    rw [max_comm]
    linarith

/-- Rows for wider intervals admit at least as much. -/
theorem LooseBigM.loosen (h : LooseBigM relax j p a s z) (hij : i.Within j) : LooseBigM relax i p a s z := by
  refine ⟨h.value_nonneg, h.slack_nonneg, h.switch, h.whole, ?_, ?_, h.affine⟩
  · have hu := h.upper
    have hle := max_le_max (le_refl (0 : Rat)) hij.1
    have hoff := mul_le_mul_of_nonneg_right hle (sub_nonneg.2 h.switch.2)
    linarith
  · have hl := h.lower
    have hle := max_le_max (le_refl (0 : Rat)) (neg_le_neg hij.2)
    have hoff := mul_le_mul_of_nonneg_right hle h.switch.1
    linarith

end Values

/-! ### Parts of a network -/

/-- The rows of a hidden neuron for an interval in a model that may be relaxed. -/
def HiddenUnit.LooseBigM (relax : Bool) (x : Assignment Rat) (prev : List VarId) (n : Neuron Rat)
    (u : HiddenUnit) (i : Interval Rat) : Prop :=
  ReluMilp.LooseBigM relax i (n.preactivation (prev.map x)) (x u.x) (x u.s) (x u.z)

section Stands

variable {m m' : Model Rat} {relax : Bool} {x : Assignment Rat} {prev : List VarId}

/-- A hidden neuron that stands in a model is satisfied in the relaxed one by what its rows say there. -/
theorem HiddenUnit.Stands.loosened_iff {n : Neuron Rat} {u : HiddenUnit} {i : Interval Rat}
    (h : u.Stands m prev n i) (hm : m.WellFormed) :
    (m.loosened relax).SatisfiedOn u.vars u.rows x ↔ u.LooseBigM relax x prev n i := by
  obtain ⟨⟨tx, hx⟩, ⟨ts, hs⟩, ⟨tz, hz⟩, ⟨tu, hu⟩, ⟨tl, hl⟩, ⟨ta, ha⟩⟩ := h
  rw [← m.loosened_rows relax] at hu hl ha
  have hparts := (hm.loosened relax).satisfiedOn_iff (x := x) [_, _, _] [_, _, _]
    (List.forall_mem_cons.2 ⟨Model.mem_loosened relax hx, List.forall_mem_cons.2
      ⟨Model.mem_loosened relax hs, List.forall_mem_singleton.2 (Model.mem_loosened relax hz)⟩⟩)
    (List.forall_mem_cons.2 ⟨ha, List.forall_mem_cons.2 ⟨hu, List.forall_mem_singleton.2 hl⟩⟩)
  rw [List.map_cons, List.map_cons, List.map_singleton, Variable.loosened_id, Variable.loosened_id,
    Variable.loosened_id] at hparts
  refine hparts.trans ?_
  rw [List.forall_mem_cons, List.forall_mem_cons, List.forall_mem_singleton, List.forall_mem_cons,
    List.forall_mem_cons, List.forall_mem_singleton, Variable.loosened_id, Variable.loosened_id,
    Variable.loosened_id, admits_loosened_nonneg, admits_loosened_nonneg, admits_loosened_binary,
    holds_hidden, holds_upper, holds_lower]
  constructor
  · rintro ⟨⟨hvx, hvs, hvz, hwhole⟩, hra, hru, hrl⟩
    exact ⟨hvx, hvs, hvz, hwhole, hru, hrl, hra⟩
  · rintro ⟨hvx, hvs, hvz, hwhole, hru, hrl, hra⟩
    exact ⟨⟨hvx, hvs, hvz, hwhole⟩, hra, hru, hrl⟩

/-- The same for a hidden layer. -/
theorem satisfiedOn_loosened_layer {ns : List (Neuron Rat)} {us : List HiddenUnit}
    {is : List (Interval Rat)} (h : Forall₃ (HiddenUnit.Stands m prev) ns us is) (hm : m.WellFormed) :
    (m.loosened relax).SatisfiedOn (Body.unitVars us) (Body.unitRows us) x ↔
      Forall₃ (HiddenUnit.LooseBigM relax x prev) ns us is := by
  rw [satisfiedOn_units]
  exact h.forall_middle_iff fun n u i hu => hu.loosened_iff hm

/-- A hidden layer restricts a relaxed model by what its rows say there. -/
theorem LayerAdded.loosened_iff {l : Layer Rat} {us : List HiddenUnit} {is : List (Interval Rat)}
    (h : LayerAdded m m' prev l us is) (hm : m.WellFormed) :
    (m'.loosened relax).Feasible x ↔ (m.loosened relax).Feasible x ∧
      Forall₃ (HiddenUnit.LooseBigM relax x prev) l.neurons us is := by
  rw [(h.adds.loosened relax).feasible_iff, satisfiedOn_loosened_layer h.stands (h.adds.wellFormed hm)]

/-- Bounds before the rectifier enclose what the next layer reads. -/
theorem encloses_loose {ns : List (Neuron Rat)} {us : List HiddenUnit} {is : List (Interval Rat)}
    (h : List.Forall₂ (fun n i => i.Has (n.preactivation (prev.map x))) ns is)
    (hr : Forall₃ (HiddenUnit.LooseBigM relax x prev) ns us is) :
    Encloses true is ((us.map (·.x)).map x) := by
  unfold Encloses
  rw [if_pos rfl, List.forall₂_map_left_iff, List.forall₂_map_right_iff, List.forall₂_map_right_iff]
  induction hr with
  | nil => exact .nil
  | cons hu _ ih =>
    obtain ⟨hi, his⟩ := List.forall₂_cons.1 h
    exact .cons (ReluMilp.LooseBigM.clamp_has hu hi) (ih his)

end Stands

/-! ### Bounds of a layer -/

/-- Without given bounds, the bounds of a layer enclose its affine values wherever the model that the
solver may have looked at is feasible. -/
theorem layerBounds_loosened {solver : Solver Rat} {r : Request Rat} {k : Nat} {prev : List VarId}
    {rectified : Bool} {before is : List (Interval Rat)} {l : Layer Rat} {w w' : Workspace Rat}
    {x : Assignment Rat} (hsound : solver.Sound) (hgiven : r.given = none)
    (h : layerBounds solver r k prev rectified before l w = .ok is w')
    (hbefore : Encloses rectified before (prev.map x))
    (hx : (w.model.loosened r.settings.relax).Feasible x) :
    List.Forall₂ (fun n i => i.Has (n.preactivation (prev.map x))) l.neurons is := by
  have hint := l.intervals_has hbefore
  obtain ⟨-, ⟨table, ht, -⟩ | ⟨-, rfl | ⟨os, rfl, hos⟩⟩⟩ := layerBounds_eq_ok h
  · rw [hgiven] at ht
    cases ht
  · exact hint
  · exact improveAll_has hint (hos.imp fun n o ho => ho.bounds hsound hx)

end ReluMilp
