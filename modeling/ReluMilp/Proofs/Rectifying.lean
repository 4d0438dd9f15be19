import ReluMilp.Milp.Feasible
import ReluMilp.Proofs.Building

/-!
# What the rows of a network mean

* `RowDraft.holds_toRow`, `holds_upper`, `holds_lower`, `holds_hidden`, `holds_output` — rows in exact
  arithmetic;
* `BigM` — what the variables and rows of a hidden neuron say for an interval, right or wrong;
* `Rectifies` — the values of a rectifier; `BigM.rectifies`: whatever the interval, nothing else
  satisfies the rows; `Rectifies.bigM`: a right interval cuts nothing off;
* `BigM.tighten`, `BigM.loosen` — other intervals for the same values;
* `Model.SatisfiedOn` — a part of a model is satisfied; `Model.Adds.feasible_iff`, `feasible_withRows` —
  for what is added to a model; `satisfiedOn_hidden`, `satisfiedOn_output` — for the parts of a
  network that stand in a model;
* `Model.feasible_of_nil`, `Model.Feasible.congr` — the variables of a model alone say what is feasible.
-/

namespace ReluMilp

open Scalar

/-! ### Rows -/

/-- A draft holds under an assignment. -/
def RowDraft.Holds (d : RowDraft Rat) (x : Assignment Rat) : Prop :=
  d.sense.Compares (termsValue x d.terms) d.rhs

/-- A model merges and drops terms of a row, but its sides keep their values. -/
theorem RowDraft.termsValue_toRow (d : RowDraft Rat) (id : RowId) (x : Assignment Rat) :
    termsValue x (d.toRow id).terms = termsValue x d.terms := by
  refine (termsValue_kept x (fun c => !negligible c) ?_ _).trans (termsValue_collect x d.terms)
  intro c hc
  rw [negligible_rat, Bool.not_eq_false', decide_eq_true_iff] at hc
  exact hc

theorem RowDraft.holds_toRow (d : RowDraft Rat) (id : RowId) (x : Assignment Rat) :
    (d.toRow id).Holds x ↔ d.Holds x := by
  show d.sense.Compares (termsValue x (d.toRow id).terms) d.rhs ↔
    d.sense.Compares (termsValue x d.terms) d.rhs
  rw [d.termsValue_toRow]

section Drafts

variable (name : String) (id : RowId) (a s z : VarId) (n : Neuron Rat) (prev : List VarId)
  (x : Assignment Rat)

theorem holds_upper (u : Rat) :
    ((upperDraft name a z u).toRow id).Holds x ↔ x a + max 0 u * x z ≤ max 0 u := by
  rw [RowDraft.holds_toRow]
  show 1 * x a + (positivePart u * x z + 0) ≤ positivePart u ↔ _
  rw [positivePart_eq_max, one_mul, add_zero]

theorem holds_lower (l : Rat) :
    ((lowerDraft name s z l).toRow id).Holds x ↔ x s - max 0 (-l) * x z ≤ 0 := by
  rw [RowDraft.holds_toRow]
  show 1 * x s + (-positivePart (-l) * x z + 0) ≤ 0 ↔ _
  rw [positivePart_eq_max, one_mul, add_zero, neg_mul, ← sub_eq_add_neg]

theorem holds_hidden :
    ((hiddenDraft name a s n prev).toRow id).Holds x ↔ x a - x s = n.preactivation (prev.map x) := by
  rw [RowDraft.holds_toRow]
  show 1 * x a + (-1 * x s + termsValue x (negatedTerms n prev)) = n.bias ↔
    x a - x s = dot n.weights (prev.map x) + n.bias
  rw [termsValue_negatedTerms]
  constructor <;> intro h <;> linarith

theorem holds_output :
    ((outputDraft name a n prev).toRow id).Holds x ↔ x a = n.preactivation (prev.map x) := by
  rw [RowDraft.holds_toRow]
  show 1 * x a + termsValue x (negatedTerms n prev) = n.bias ↔ x a = dot n.weights (prev.map x) + n.bias
  rw [termsValue_negatedTerms]
  constructor <;> intro h <;> linarith

end Drafts

/-! ### Values of a hidden neuron -/

/-- What the variables and rows of a hidden neuron say for an interval: `p` is its affine value, `a` and
`s` its value and what the rectifier cuts off, and `z` its binary variable. -/
structure BigM (i : Interval Rat) (p a s z : Rat) : Prop where
  value_nonneg : 0 ≤ a
  slack_nonneg : 0 ≤ s
  switch : z = 0 ∨ z = 1
  upper : a + max 0 i.upper * z ≤ max 0 i.upper
  lower : s - max 0 (-i.lower) * z ≤ 0
  affine : a - s = p

/-- The values of a rectifier on `p`; the binary variable is free at zero. -/
structure Rectifies (p a s z : Rat) : Prop where
  value : a = max 0 p
  slack : s = max 0 (-p)
  switch : z = 0 ∨ z = 1
  active : 0 < p → z = 0
  inactive : p < 0 → z = 1

/-- Rows for any interval admit nothing but the values of the rectifier. -/
theorem BigM.rectifies {i : Interval Rat} {p a s z : Rat} (h : BigM i p a s z) : Rectifies p a s z := by
  have ha := h.value_nonneg
  have hs := h.slack_nonneg
  have hp := h.affine
  have hupper := h.upper
  have hlower := h.lower
  rcases h.switch with rfl | rfl
  · -- the lower row leaves no slack
    rw [mul_zero, sub_zero] at hlower
    have hs0 : s = 0 := le_antisymm hlower hs
    have hpa : p = a := by linarith
    subst hpa
    refine ⟨(max_eq_right ha).symm, ?_, .inl rfl, fun _ => rfl, fun hneg => absurd ha (not_le.2 hneg)⟩
    rw [hs0, max_eq_left (neg_nonpos.2 ha)]
  · -- the upper row leaves no value
    rw [mul_one] at hupper
    have ha0 : a = 0 := le_antisymm (by linarith) ha
    have hps : p = -s := by linarith
    subst hps
    refine ⟨?_, ?_, .inr rfl, fun hpos => absurd hs (by linarith), fun _ => rfl⟩
    · rw [ha0, max_eq_left (neg_nonpos.2 hs)]
    · rw [neg_neg, max_eq_right hs]

/-- A value lies in an interval. -/
def Interval.Has (i : Interval Rat) (a : Rat) : Prop := i.lower ≤ a ∧ a ≤ i.upper

/-- Rows for an interval of the affine value admit all values of the rectifier. -/
theorem Rectifies.bigM {i : Interval Rat} {p a s z : Rat} (h : Rectifies p a s z) (hi : i.Has p) :
    BigM i p a s z := by
  obtain ⟨rfl, rfl, hz, hpos, hneg⟩ := h
  refine ⟨le_max_left 0 p, le_max_left 0 (-p), hz, ?_, ?_, ?_⟩
  · rcases hz with rfl | rfl
    · rw [mul_zero, add_zero]
      exact max_le_max le_rfl hi.2
    · -- the neuron is off, so its value is zero
      have hp : p ≤ 0 := not_lt.1 fun h => one_ne_zero (hpos h)
      rw [max_eq_left hp, mul_one, zero_add]
  · rcases hz with rfl | rfl
    · have hp : 0 ≤ p := not_lt.1 fun h => zero_ne_one (hneg h)
      rw [max_eq_left (neg_nonpos.2 hp), mul_zero, sub_zero]
    · rw [mul_one]
      exact sub_nonpos.2 (max_le_max le_rfl (neg_le_neg hi.1))
  · rcases le_total p 0 with hp | hp
    · rw [max_eq_left hp, max_eq_right (neg_nonneg.2 hp), zero_sub, neg_neg]
    · rw [max_eq_right hp, max_eq_left (neg_nonpos.2 hp), sub_zero]

/-- Every bound is kept, or replaced by one that the affine value respects. -/
def Interval.ReplacedAt (i j : Interval Rat) (p : Rat) : Prop :=
  (j.upper = i.upper ∨ p ≤ j.upper) ∧ (j.lower = i.lower ∨ j.lower ≤ p)

/-- The values that satisfy the rows of an interval satisfy those of another one, where its bounds
differ by what the affine value respects. -/
theorem BigM.tighten {i j : Interval Rat} {p a s z : Rat} (h : BigM i p a s z) (hj : i.ReplacedAt j p) :
    BigM j p a s z := by
  have hr := h.rectifies
  refine ⟨h.value_nonneg, h.slack_nonneg, h.switch, ?_, ?_, h.affine⟩
  · rcases hj.1 with he | hp
    · rw [he]
      exact h.upper
    · exact (hr.bigM (i := ⟨j.upper, p⟩) ⟨le_rfl, hp⟩).upper
  · rcases hj.2 with he | hp
    · rw [he]
      exact h.lower
    · exact (hr.bigM (i := ⟨p, j.lower⟩) ⟨hp, le_rfl⟩).lower

/-- The bounds of the second interval lie within those of the first. -/
def Interval.Within (i j : Interval Rat) : Prop := j.upper ≤ i.upper ∧ i.lower ≤ j.lower

/-- Rows for wider intervals admit at least as much. -/
theorem BigM.loosen {i j : Interval Rat} {p a s z : Rat} (h : BigM j p a s z) (hij : i.Within j) :
    BigM i p a s z := by
  refine ⟨h.value_nonneg, h.slack_nonneg, h.switch, ?_, ?_, h.affine⟩
  · have hu := h.upper
    have hle := max_le_max (le_refl (0 : Rat)) hij.1
    rcases h.switch with rfl | rfl
    · linarith
    · linarith
  · have hl := h.lower
    have hle := max_le_max (le_refl (0 : Rat)) (neg_le_neg hij.2)
    rcases h.switch with rfl | rfl
    · linarith
    · linarith

/-! ### Parts of a model -/

/-- The variables and the rows with given numbers are satisfied. -/
def Model.SatisfiedOn (m : Model Rat) (vars : List VarId) (rows : List RowId) (x : Assignment Rat) :
    Prop :=
  (∀ v ∈ m.vars, v.id ∈ vars → v.Admits (x v.id)) ∧ ∀ r ∈ m.rows, r.id ∈ rows → r.Holds x

theorem Model.Feasible.satisfiedOn {m : Model Rat} {x : Assignment Rat} (h : m.Feasible x)
    (vars : List VarId) (rows : List RowId) : m.SatisfiedOn vars rows x :=
  ⟨fun v hv _ => h.1 v hv, fun r hr _ => h.2 r hr⟩

theorem Model.SatisfiedOn.mono {m : Model Rat} {vars vars' : List VarId} {rows rows' : List RowId}
    {x : Assignment Rat} (h : m.SatisfiedOn vars rows x) (hv : vars' ⊆ vars) (hr : rows' ⊆ rows) :
    m.SatisfiedOn vars' rows' x :=
  ⟨fun v hm hid => h.1 v hm (hv hid), fun r hm hid => h.2 r hm (hr hid)⟩

theorem Model.satisfiedOn_append {m : Model Rat} {vars vars' : List VarId} {rows rows' : List RowId}
    {x : Assignment Rat} :
    m.SatisfiedOn (vars ++ vars') (rows ++ rows') x ↔
      m.SatisfiedOn vars rows x ∧ m.SatisfiedOn vars' rows' x := by
  constructor
  · intro h
    exact ⟨h.mono (List.subset_append_left _ _) (List.subset_append_left _ _),
      h.mono (List.subset_append_right _ _) (List.subset_append_right _ _)⟩
  · rintro ⟨h, h'⟩
    refine ⟨fun v hv hid => ?_, fun r hr hid => ?_⟩
    · exact (List.mem_append.1 hid).elim (h.1 v hv) (h'.1 v hv)
    · exact (List.mem_append.1 hid).elim (h.2 r hr) (h'.2 r hr)

/-- A grown model is satisfied where the model before it and the new part are. -/
theorem Model.Adds.feasible_iff {m m' : Model Rat} {vars : List VarId} {rows : List RowId}
    {x : Assignment Rat} (h : m.Adds m' vars rows) :
    m'.Feasible x ↔ m.Feasible x ∧ m'.SatisfiedOn vars rows x := by
  constructor
  · intro hx
    exact ⟨⟨fun v hv => hx.1 v (h.keeps.vars v hv),
      fun r hr => hx.2 r (h.keeps.rows r hr List.not_mem_nil)⟩, hx.satisfiedOn vars rows⟩
  · obtain ⟨vs, rs, hg, rfl, hp⟩ := h
    rintro ⟨hx, hnew⟩
    refine ⟨fun v hv => ?_, fun r hr => ?_⟩
    · have hv' := hv
      rw [hg.vars] at hv'
      rcases List.mem_append.1 hv' with hold | hin
      · exact hx.1 v hold
      · exact hnew.1 v hv (List.mem_map_of_mem hin)
    · have hr' := hr
      rw [hg.rows] at hr'
      rcases List.mem_append.1 hr' with hold | hin
      · exact hx.2 r hold
      · exact hnew.2 r hr (hp.mem_iff.1 (List.mem_map_of_mem hin))

/-- Rows that are added hold as drafts. -/
theorem feasible_withRows {m : Model Rat} {drafts : List (RowDraft Rat)} {x : Assignment Rat} :
    (m.withRows drafts).Feasible x ↔
      m.Feasible x ∧ ∀ d ∈ drafts, d.Holds x := by
  constructor
  · intro h
    refine ⟨⟨h.1, fun r hr => h.2 r (List.mem_append_left _ hr)⟩, fun d hd => ?_⟩
    obtain ⟨k, hk⟩ := List.mem_iff_getElem?.1 hd
    exact (d.holds_toRow _ x).1 (h.2 _ (mem_withRows m hk))
  · rintro ⟨h, hd⟩
    refine ⟨h.1, fun r hr => ?_⟩
    rcases List.mem_append.1 hr with hr | hr
    · exact h.2 r hr
    · obtain ⟨k, d, hk, rfl⟩ := mem_number.1 hr
      exact (d.holds_toRow _ x).2 (hd d (List.mem_of_getElem? hk))

/-- Variables without bounds admit everything. -/
theorem feasible_withFree {m : Model Rat} {names : List String} {x : Assignment Rat} :
    (m.withVars names .continuous .negInf .posInf).Feasible x ↔ m.Feasible x := by
  constructor
  · intro h
    exact ⟨fun v hv => h.1 v (List.mem_append_left _ hv), h.2⟩
  · intro h
    refine ⟨fun v hv => ?_, h.2⟩
    rcases List.mem_append.1 hv with hv | hv
    · exact h.1 v hv
    · obtain ⟨k, t, _, rfl⟩ := mem_number.1 hv
      exact .inr ⟨trivial, trivial, trivial⟩

/-- A model without variables and rows admits everything. -/
theorem Model.feasible_of_nil {m : Model Rat} (hvars : m.vars = []) (hrows : m.rows = [])
    (x : Assignment Rat) : m.Feasible x := by
  unfold Model.Feasible
  rw [hvars, hrows]
  exact ⟨fun _ hv => absurd hv List.not_mem_nil, fun _ hr => absurd hr List.not_mem_nil⟩

/-- Feasibility depends on variables that were created. -/
theorem Model.Feasible.congr {m : Model Rat} {x y : Assignment Rat} (hx : m.Feasible x)
    (hm : m.WellFormed) (h : ∀ id < m.nextVar, y id = x id) : m.Feasible y := by
  refine ⟨fun v hv => ?_, fun r hr => ?_⟩
  · rw [h v.id (hm.vars_lt v hv)]
    exact hx.1 v hv
  · have hrow := hx.2 r hr
    unfold Row.Holds at hrow ⊢
    rw [termsValue_congr fun t ht => h t.var (hm.terms_lt r hr t ht)]
    exact hrow

theorem satisfiedOn_units {m : Model Rat} {us : List HiddenUnit} {x : Assignment Rat} :
    m.SatisfiedOn (Body.unitVars us) (Body.unitRows us) x ↔
      ∀ u ∈ us, m.SatisfiedOn u.vars u.rows x := by
  constructor
  · intro h u hu
    exact h.mono (fun id hid => mem_unitVars_iff.2 ⟨u, hu, hid⟩)
      fun id hid => mem_unitRows_iff.2 ⟨u, hu, hid⟩
  · intro h
    refine ⟨fun v hv hid => ?_, fun r hr hid => ?_⟩
    · obtain ⟨u, hu, hid⟩ := mem_unitVars_iff.1 hid
      exact (h u hu).1 v hv hid
    · obtain ⟨u, hu, hid⟩ := mem_unitRows_iff.1 hid
      exact (h u hu).2 r hr hid

/-! ### Parts of a network -/

/-- The rows of a hidden neuron for an interval, at the values of an assignment. -/
def HiddenUnit.BigM (x : Assignment Rat) (prev : List VarId) (n : Neuron Rat) (u : HiddenUnit)
    (i : Interval Rat) : Prop :=
  ReluMilp.BigM i (n.preactivation (prev.map x)) (x u.x) (x u.s) (x u.z)

/-- The values of a hidden neuron in an assignment are those of the rectifier. -/
def HiddenUnit.Rectifies (x : Assignment Rat) (prev : List VarId) (n : Neuron Rat) (u : HiddenUnit) :
    Prop :=
  ReluMilp.Rectifies (n.preactivation (prev.map x)) (x u.x) (x u.s) (x u.z)

section Stands

variable {m : Model Rat} {x : Assignment Rat} {prev : List VarId}

/-- The variables and the affine row of a hidden neuron are satisfied. -/
structure HiddenUnit.Based (x : Assignment Rat) (prev : List VarId) (n : Neuron Rat)
    (u : HiddenUnit) : Prop where
  value_nonneg : 0 ≤ x u.x
  slack_nonneg : 0 ≤ x u.s
  switch : x u.z = 0 ∨ x u.z = 1
  affine : x u.x - x u.s = n.preactivation (prev.map x)

theorem HiddenUnit.bigM_iff {n : Neuron Rat} {u : HiddenUnit} {i : Interval Rat} :
    u.BigM x prev n i ↔ u.Based x prev n ∧ x u.x + max 0 i.upper * x u.z ≤ max 0 i.upper ∧
      x u.s - max 0 (-i.lower) * x u.z ≤ 0 := by
  constructor
  · rintro ⟨ha, hs, hz, hu, hl, hp⟩
    exact ⟨⟨ha, hs, hz, hp⟩, hu, hl⟩
  · rintro ⟨⟨ha, hs, hz, hp⟩, hu, hl⟩
    exact ⟨ha, hs, hz, hu, hl, hp⟩

theorem admits_nonneg {id : VarId} {name : String} {a : Rat} :
    (⟨id, name, .continuous, .finite 0, .posInf⟩ : Variable Rat).Admits a ↔ 0 ≤ a := by
  rw [Variable.admits_iff rfl]
  show 0 ≤ a ∧ True ∧ True ↔ 0 ≤ a
  rw [and_true, and_true]

theorem admits_binary {id : VarId} {name : String} {a : Rat} :
    (⟨id, name, .binary, .finite 0, .finite 1⟩ : Variable Rat).Admits a ↔ a = 0 ∨ a = 1 := by
  rw [Variable.admits_iff rfl]
  show 0 ≤ a ∧ a ≤ 1 ∧ (a = 0 ∨ a = 1) ↔ _
  constructor
  · exact fun h => h.2.2
  · rintro (rfl | rfl)
    · exact ⟨le_rfl, zero_le_one, .inl rfl⟩
    · exact ⟨zero_le_one, le_rfl, .inr rfl⟩

theorem admits_free {id : VarId} {name : String} (a : Rat) :
    (⟨id, name, .continuous, .negInf, .posInf⟩ : Variable Rat).Admits a :=
  .inr ⟨trivial, trivial, trivial⟩

/-- Parts of a model are satisfied exactly if their variables and rows are. -/
theorem Model.WellFormed.satisfiedOn_iff (hm : m.WellFormed) (vs : List (Variable Rat))
    (rs : List (Row Rat)) (hvs : ∀ v ∈ vs, v ∈ m.vars) (hrs : ∀ r ∈ rs, r ∈ m.rows) :
    m.SatisfiedOn (vs.map (·.id)) (rs.map (·.id)) x ↔
      (∀ v ∈ vs, v.Admits (x v.id)) ∧ ∀ r ∈ rs, r.Holds x := by
  constructor
  · intro h
    exact ⟨fun v hv => h.1 v (hvs v hv) (List.mem_map_of_mem hv),
      fun r hr => h.2 r (hrs r hr) (List.mem_map_of_mem hr)⟩
  · rintro ⟨hv, hr⟩
    constructor
    · intro v hvm hid
      -- a number belongs to one variable, so that `v` is the one that is meant
      obtain ⟨u, hu, huv⟩ := List.mem_map.1 hid
      rw [hm.eq_of_var_id hvm (hvs u hu) huv.symm]
      exact hv u hu
    · intro r hrm hid
      obtain ⟨t, ht, htr⟩ := List.mem_map.1 hid
      rw [hm.eq_of_row_id hrm (hrs t ht) htr.symm]
      exact hr t ht

/-- A hidden neuron that stands in a model is satisfied there exactly by what its rows say. -/
theorem HiddenUnit.Stands.satisfiedOn_iff {n : Neuron Rat} {u : HiddenUnit} {i : Interval Rat}
    (h : u.Stands m prev n i) (hm : m.WellFormed) :
    m.SatisfiedOn u.vars u.rows x ↔ u.BigM x prev n i := by
  obtain ⟨⟨tx, hx⟩, ⟨ts, hs⟩, ⟨tz, hz⟩, ⟨tu, hu⟩, ⟨tl, hl⟩, ⟨ta, ha⟩⟩ := h
  have hparts := hm.satisfiedOn_iff (x := x) [_, _, _] [_, _, _]
    (List.forall_mem_cons.2 ⟨hx, List.forall_mem_cons.2 ⟨hs, List.forall_mem_singleton.2 hz⟩⟩)
    (List.forall_mem_cons.2 ⟨ha, List.forall_mem_cons.2 ⟨hu, List.forall_mem_singleton.2 hl⟩⟩)
  refine hparts.trans ?_
  rw [List.forall_mem_cons, List.forall_mem_cons, List.forall_mem_singleton, List.forall_mem_cons,
    List.forall_mem_cons, List.forall_mem_singleton, admits_nonneg, admits_nonneg, admits_binary,
    holds_hidden, holds_upper, holds_lower]
  constructor
  · rintro ⟨⟨hvx, hvs, hvz⟩, hra, hru, hrl⟩
    exact ⟨hvx, hvs, hvz, hru, hrl, hra⟩
  · rintro ⟨hvx, hvs, hvz, hru, hrl, hra⟩
    exact ⟨⟨hvx, hvs, hvz⟩, hra, hru, hrl⟩

/-- The same for a hidden layer. -/
theorem satisfiedOn_layer {ns : List (Neuron Rat)} {us : List HiddenUnit} {is : List (Interval Rat)}
    (h : Forall₃ (HiddenUnit.Stands m prev) ns us is) (hm : m.WellFormed) :
    m.SatisfiedOn (Body.unitVars us) (Body.unitRows us) x ↔
      Forall₃ (HiddenUnit.BigM x prev) ns us is := by
  rw [satisfiedOn_units]
  exact h.forall_middle_iff fun n u i hu => hu.satisfiedOn_iff hm

/-- The same for hidden layers one after the other. -/
theorem satisfiedOn_hidden {ls : List (Layer Rat)} {uss : List (List HiddenUnit)}
    {iss : List (List (Interval Rat))} (h : Layerwise (HiddenUnit.Stands m) prev ls uss iss)
    (hm : m.WellFormed) :
    m.SatisfiedOn (uss.flatMap Body.unitVars) (uss.flatMap Body.unitRows) x ↔
      Layerwise (HiddenUnit.BigM x) prev ls uss iss := by
  induction h with
  | nil => exact ⟨fun _ => .nil, fun _ => ⟨fun _ _ h => absurd h List.not_mem_nil,
      fun _ _ h => absurd h List.not_mem_nil⟩⟩
  | cons hl _ ih =>
    rw [List.flatMap_cons, List.flatMap_cons, Model.satisfiedOn_append, satisfiedOn_layer hl hm, ih]
    constructor
    · rintro ⟨h₁, h₂⟩
      exact .cons h₁ h₂
    · rintro (_ | ⟨h₁, h₂⟩)
      exact ⟨h₁, h₂⟩

/-- The outputs of a network that stand in a model are satisfied exactly by the affine values. -/
theorem satisfiedOn_output {ns : List (Neuron Rat)} {ids : List VarId} {rows : List RowId}
    (hv : FreeStand m ids) (h : Forall₃ (OutputStands m prev) ns ids rows) (hm : m.WellFormed) :
    m.SatisfiedOn ids rows x ↔ ids.map x = ns.map (·.preactivation (prev.map x)) := by
  have hvars : ∀ v ∈ m.vars, v.id ∈ ids → v.Admits (x v.id) := by
    intro v hvm hid
    obtain ⟨t, ht⟩ := hv _ hid
    rw [hm.eq_of_var_id hvm ht rfl]
    exact admits_free _
  have hrow : ∀ (n : Neuron Rat) (id : VarId) (row : RowId), OutputStands m prev n id row →
      ((∀ r ∈ m.rows, r.id = row → r.Holds x) ↔ x id = n.preactivation (prev.map x)) := by
    rintro n id row ⟨t, ht⟩
    rw [← holds_output t row]
    constructor
    · exact fun hall => hall _ ht rfl
    · intro hr r hrm hid
      rw [hm.eq_of_row_id hrm ht hid]
      exact hr
  have hrows : m.SatisfiedOn ids rows x ↔ ∀ row ∈ rows, ∀ r ∈ m.rows, r.id = row → r.Holds x := by
    constructor
    · rintro h row hmem r hr rfl
      exact h.2 r hr hmem
    · intro h
      exact ⟨hvars, fun r hr hid => h r.id hid r hr rfl⟩
  rw [hrows, h.forall_right_iff hrow]
  clear hrows hvars hv
  induction h with
  | nil => exact ⟨fun _ => rfl, fun _ => .nil⟩
  | cons hr _ ih =>
    rw [List.forall₂_cons, List.map_cons, List.map_cons, List.cons.injEq]
    exact and_congr Iff.rfl ih

end Stands

end ReluMilp
