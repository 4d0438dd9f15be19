import ReluMilp.Proofs.Elimination
import ReluMilp.Proofs.Optima

/-!
# Optima are attained

What a model with continuous and binary variables admits is polyhedral, so that an affine value that is
bounded there has a largest and a smallest one, and an exact solver finds them.

* `Model.Plain`, `polyhedral_feasible` — models whose feasible assignments are polyhedral;
* `exists_isGreatest_value`, `exists_isExtreme` — a bounded expression attains its bounds;
* `Solver.Exact.optimum` — what an exact solver gives for an expression;
* `Model.readings` — the values that variables take where a model is feasible;
* `Optima.Exact`, `Optima.From.exact` — the optima of a neuron are the extremes of its affine value;
* `Interval.Spans`, `improve_spans`, `improveAll_exact` — known bounds of the affine values, improved by
  such optima, are the extremes.
-/

namespace ReluMilp

open Scalar

/-! ### Polyhedral models -/

/-- Every variable is continuous or binary. -/
def Model.Plain (m : Model Rat) : Prop := ∀ v ∈ m.vars, v.kind = .continuous ∨ v.kind = .binary

theorem mayVanish_of_plain {kind : VarKind} (h : kind = .continuous ∨ kind = .binary) :
    kind.mayVanish = false := by
  rcases h with rfl | rfl <;> rfl

theorem Model.Plain.not_gapped {m : Model Rat} (h : m.Plain) : ¬m.Gapped := by
  rintro ⟨v, hv, hvanish, -⟩
  rw [mayVanish_of_plain (h v hv)] at hvanish
  cases hvanish

theorem Model.Plain.loosened {m : Model Rat} (h : m.Plain) (relax : Bool) : (m.loosened relax).Plain := by
  unfold Plain
  rw [m.loosened_vars, List.forall_mem_map]
  intro v hv
  cases relax with
  | false => exact h v hv
  | true => exact .inl rfl

theorem termsValue_unit (x : Assignment Rat) (id : VarId) : termsValue x [⟨1, id⟩] = x id := by
  show 1 * x id + 0 = x id
  rw [one_mul, add_zero]

/-- What a continuous or binary variable admits. -/
theorem polyhedral_admits {v : Variable Rat} (h : v.kind = .continuous ∨ v.kind = .binary) :
    Polyhedral fun x => v.Admits (x v.id) := by
  have hle : ∀ a, Polyhedral fun x => x v.id ≤ a := by
    intro a
    refine (Polyhedral.le [⟨1, v.id⟩] a).congr fun x => ?_
    rw [termsValue_unit]
  have hge : ∀ a, Polyhedral fun x => a ≤ x v.id := by
    intro a
    refine (Polyhedral.ge [⟨1, v.id⟩] a).congr fun x => ?_
    rw [termsValue_unit]
  have heq : ∀ a, Polyhedral fun x => x v.id = a := by
    intro a
    refine (Polyhedral.eq [⟨1, v.id⟩] a).congr fun x => ?_
    rw [termsValue_unit]
  have hlower : Polyhedral fun x => v.lower.AtMost (x v.id) := by
    cases v.lower with
    | negInf => exact .of_true fun _ => trivial
    | finite l => exact hge l
    | posInf => exact .of_false fun _ h => h
  have hupper : Polyhedral fun x => v.upper.AtLeast (x v.id) := by
    cases v.upper with
    | negInf => exact .of_false fun _ h => h
    | finite u => exact hle u
    | posInf => exact .of_true fun _ => trivial
  have hkind : Polyhedral fun x => v.kind.Suits (x v.id) := by
    rcases h with hk | hk
    · rw [hk]
      exact .of_true fun _ => trivial
    · rw [hk]
      exact (heq 0).or (heq 1)
  exact (hlower.and (hupper.and hkind)).congr fun x =>
    (Variable.admits_iff (mayVanish_of_plain h) _).symm

theorem polyhedral_holds (r : Row Rat) : Polyhedral r.Holds := by
  unfold Row.Holds
  cases r.sense with
  | le => exact .le r.terms r.rhs
  | ge => exact .ge r.terms r.rhs
  | eq => exact .eq r.terms r.rhs

theorem polyhedral_feasible {m : Model Rat} (h : m.Plain) : Polyhedral m.Feasible :=
  (Polyhedral.forall_mem fun v hv => polyhedral_admits (h v hv)).and
    (Polyhedral.forall_mem fun r _ => polyhedral_holds r)

/-! ### Extremes of an expression -/

/-- The largest or the smallest of some numbers. -/
def IsExtreme (largest : Bool) (s : Set Rat) (a : Rat) : Prop := if largest then IsGreatest s a else IsLeast s a

section Extremes

variable {m : Model Rat} {e : Linear Rat}

/-- An expression that is bounded from above on a feasible model has a largest value. -/
theorem exists_isGreatest_value {b : Rat} (hm : m.WellFormed) (hp : m.Plain)
    (he : ∀ t ∈ e.terms, t.var < m.nextVar) (hne : ∃ x, m.Feasible x)
    (hb : ∀ x, m.Feasible x → e.value x ≤ b) : ∃ a, IsGreatest (e.value '' {x | m.Feasible x}) a := by
  have hvalue : ∀ {x y : Assignment Rat}, (∀ id < m.nextVar, y id = x id) → e.value y = e.value x := by
    intro x y hxy
    show termsValue y e.terms + e.constant = termsValue x e.terms + e.constant
    rw [termsValue_congr fun t ht => hxy t.var (he t ht)]
  -- a new variable takes the value, and those of the model are projected away
  have hpoly : Polyhedral fun x => x m.nextVar ∈ e.value '' {x | m.Feasible x} := by
    have hgraph := (polyhedral_feasible hp).and
      (Polyhedral.eq (⟨-1, m.nextVar⟩ :: e.terms) (-e.constant))
    refine (hgraph.exists_off (List.range m.nextVar)).congr fun x => ?_
    constructor
    · rintro ⟨y, hy, hfeas, heq⟩
      refine ⟨y, hfeas, ?_⟩
      rw [termsValue_cons, hy _ List.not_mem_range_self] at heq
      show termsValue y e.terms + e.constant = x m.nextVar
      linarith
    · rintro ⟨y, hy, heq⟩
      have hsame : ∀ id < m.nextVar, (if id < m.nextVar then y id else x id) = y id :=
        fun id hid => if_pos hid
      refine ⟨fun id => if id < m.nextVar then y id else x id, fun id hid => ?_, ?_, ?_⟩
      · exact if_neg fun hlt => hid (List.mem_range.2 hlt)
      · exact Model.Feasible.congr hy hm hsame
      · have hval : termsValue (fun id => if id < m.nextVar then y id else x id) e.terms + e.constant =
            x m.nextVar := (hvalue hsame).trans heq
        rw [termsValue_cons, if_neg (lt_irrefl _)]
        linarith
  obtain ⟨x, hx⟩ := hne
  refine exists_largest hpoly ⟨x, hx, rfl⟩ (b := b) ?_
  rintro _ ⟨y, hy, rfl⟩
  exact hb y hy

/-- An expression that is bounded on a feasible model has a largest and a smallest value. -/
theorem exists_isExtreme {i : Interval Rat} (hm : m.WellFormed) (hp : m.Plain)
    (he : ∀ t ∈ e.terms, t.var < m.nextVar) (hne : ∃ x, m.Feasible x)
    (hi : ∀ x, m.Feasible x → i.Has (e.value x)) (largest : Bool) :
    ∃ a, IsExtreme largest (e.value '' {x | m.Feasible x}) a := by
  cases largest with
  | true => exact exists_isGreatest_value hm hp he hne fun x hx => (hi x hx).2
  | false =>
    -- the smallest value is the opposite of the largest one of the opposite
    have hneg : ∀ x, (e.scale (-1)).value x = -e.value x := fun x => by rw [Linear.value_scale, neg_one_mul]
    have hterms : ∀ t ∈ (e.scale (-1)).terms, t.var < m.nextVar := by
      intro t ht
      obtain ⟨u, hu, rfl⟩ := List.mem_map.1 ht
      exact he u hu
    have hbound : ∀ x, m.Feasible x → (e.scale (-1)).value x ≤ -i.lower := by
      intro x hx
      rw [hneg]
      exact neg_le_neg (hi x hx).1
    obtain ⟨_, ⟨x, hx, rfl⟩, hbest⟩ := exists_isGreatest_value hm hp hterms hne hbound
    refine ⟨e.value x, ⟨x, hx, rfl⟩, ?_⟩
    rintro _ ⟨y, hy, rfl⟩
    have hle := hbest ⟨y, hy, rfl⟩
    rw [hneg, hneg] at hle
    exact neg_le_neg_iff.1 hle

/-- An assignment is best for an objective where its value is the extreme one. -/
theorem best_iff_isExtreme {m' : Model Rat} {maximize : Bool} {x : Assignment Rat}
    (h : m.setObjective e maximize = .ok m') :
    m'.Best x ↔ m.Feasible x ∧ IsExtreme maximize (e.value '' {x | m.Feasible x}) (e.value x) := by
  have hfeas : ∀ y, m'.Feasible y ↔ m.Feasible y := by
    intro y
    rw [setObjective_eq_ok h]
    exact Iff.rfl
  have hvalue : ∀ y, m'.objective.value y = e.value y := fun y => (value_setObjective y h).2
  have hmax := (value_setObjective x h).1
  unfold Model.Best Objective.AtLeastAsGood IsExtreme
  simp only [hfeas, hvalue, hmax]
  refine and_congr_right fun hx => ?_
  have hmem : e.value x ∈ e.value '' {x | m.Feasible x} := ⟨x, hx, rfl⟩
  cases maximize with
  | true =>
    constructor
    · intro hall
      exact ⟨hmem, Set.forall_mem_image.2 hall⟩
    · exact fun hbest y hy => hbest.2 ⟨y, hy, rfl⟩
  | false =>
    constructor
    · intro hall
      exact ⟨hmem, Set.forall_mem_image.2 hall⟩
    · exact fun hbest y hy => hbest.2 ⟨y, hy, rfl⟩

/-- An exact solver gives the extreme value of an expression that has one, and nothing if the expression has
no value. -/
theorem Solver.Exact.optimum {solver : Solver Rat} {maximize : Bool} {o : Option Rat} (hs : solver.Exact)
    (h : solver.Gives m e maximize o)
    (hex : (∃ x, m.Feasible x) → ∃ a, IsExtreme maximize (e.value '' {x | m.Feasible x}) a) :
    (o = none ∧ e.value '' {x | m.Feasible x} = ∅) ∨
      ∃ a, o = some a ∧ IsExtreme maximize (e.value '' {x | m.Feasible x}) a := by
  obtain ⟨k, m', r, hset, hr, rfl⟩ := h
  obtain ⟨r', hr', hexact⟩ := hs k m'
  rw [hr] at hr'
  cases hr'
  have hfeas : ∀ y, m'.Feasible y ↔ m.Feasible y := by
    intro y
    rw [setObjective_eq_ok hset]
    exact Iff.rfl
  cases hexact with
  | @best x hbest =>
    refine .inr ⟨e.value x, ?_, ((best_iff_isExtreme hset).1 hbest).2⟩
    rw [optimum?_best, (value_setObjective x hset).2]
  | infeasible hnone =>
    refine .inl ⟨rfl, Set.image_eq_empty.2 (Set.eq_empty_iff_forall_notMem.2 fun x hx => ?_)⟩
    exact hnone x ((hfeas x).2 hx)
  | @endless _ _ _ x hx hbest =>
    obtain ⟨a, ha⟩ := hex ⟨x, (hfeas x).1 hx⟩
    obtain ⟨y, hy, rfl⟩ : a ∈ e.value '' {x | m.Feasible x} := by
      unfold IsExtreme at ha
      split at ha
      · exact ha.1
      · exact ha.1
    exact absurd ((best_iff_isExtreme hset).2 ⟨hy, ha⟩) (hbest y)

end Extremes

/-! ### The optima of a neuron -/

/-- The values that variables take where a model is feasible. -/
def Model.readings (m : Model Rat) (ids : List VarId) : Set (List Rat) :=
  (fun x => ids.map x) '' {x | m.Feasible x}

/-- Optima are the extremes of some numbers, or missing if there are none. -/
inductive Optima.Exact (s : Set Rat) : Optima Rat → Prop
  | empty : s = ∅ → Exact s ⟨none, none⟩
  | extremes {u l : Rat} : IsGreatest s u → IsLeast s l → Exact s ⟨some u, some l⟩

theorem Optima.exact_of_extremes {s : Set Rat} {upper lower : Option Rat}
    (hupper : (upper = none ∧ s = ∅) ∨ ∃ u, upper = some u ∧ IsGreatest s u)
    (hlower : (lower = none ∧ s = ∅) ∨ ∃ l, lower = some l ∧ IsLeast s l) :
    Optima.Exact s ⟨upper, lower⟩ := by
  rcases hupper with ⟨rfl, hempty⟩ | ⟨u, rfl, hu⟩
  · rcases hlower with ⟨rfl, -⟩ | ⟨l, -, hl⟩
    · exact .empty hempty
    · exact absurd hempty (Set.Nonempty.ne_empty ⟨l, hl.1⟩)
  · rcases hlower with ⟨-, hempty⟩ | ⟨l, rfl, hl⟩
    · exact absurd hempty (Set.Nonempty.ne_empty ⟨u, hu.1⟩)
    · exact .extremes hu hl

namespace Model.Loosens

variable {m m' : Model Rat}

theorem vars_eq (h : m.Loosens false m') : m'.vars = m.vars := h.vars

theorem wellFormed (h : m.Loosens false m') (hm : m.WellFormed) : m'.WellFormed where
  vars_lt := by
    rw [h.vars_eq, h.nextVar]
    exact hm.vars_lt
  rows_lt := by
    rw [h.rows, h.nextRow]
    exact hm.rows_lt
  vars_nodup := by
    rw [h.vars_eq]
    exact hm.vars_nodup
  rows_nodup := by
    rw [h.rows]
    exact hm.rows_nodup
  terms_lt := by
    rw [h.rows, h.nextVar]
    exact hm.terms_lt

theorem plain (h : m.Loosens false m') (hp : m.Plain) : m'.Plain := by
  unfold Model.Plain
  rw [h.vars_eq]
  exact hp

end Model.Loosens

/-- The optima that an exact solver gave for a neuron are the extremes of its affine value, if that is
bounded. -/
theorem Optima.From.exact {solver : Solver Rat} {m : Model Rat} {prev : List VarId} {n : Neuron Rat}
    {o : Optima Rat} {i : Interval Rat} (hs : solver.Exact) (hm : m.WellFormed) (hp : m.Plain)
    (hprev : ∀ id ∈ prev, id < m.nextVar) (hi : ∀ v ∈ m.readings prev, i.Has (n.preactivation v))
    (h : o.From solver false m prev n) : o.Exact (n.preactivation '' m.readings prev) := by
  obtain ⟨m', hl, ho⟩ := h
  have himage : Linear.value ⟨weightTerms n.weights prev, n.bias⟩ '' {x | m'.Feasible x} =
      n.preactivation '' m.readings prev := by
    unfold Model.readings
    rw [Set.image_image]
    simp only [hl.feasible_iff, Model.loosened_false, funext (value_neuron n prev)]
  have hex : (∃ x, m'.Feasible x) → ∀ largest, ∃ a, IsExtreme largest
      (Linear.value ⟨weightTerms n.weights prev, n.bias⟩ '' {x | m'.Feasible x}) a := by
    intro hne
    refine exists_isExtreme (i := i) (hl.wellFormed hm) (hl.plain hp) (fun t ht => ?_) hne fun x hx => ?_
    · rw [hl.nextVar]
      exact hprev _ (mem_weightTerms ht)
    · rw [value_neuron]
      exact hi _ ⟨x, (hl.feasible_iff x).1 hx, rfl⟩
  have hupper := hs.optimum ho.upper fun hne => hex hne true
  have hlower := hs.optimum ho.lower fun hne => hex hne false
  rw [himage] at hupper hlower
  exact Optima.exact_of_extremes hupper hlower

/-! ### Extremes from known bounds -/

/-- An interval from the smallest to the largest of some numbers. -/
structure Interval.Spans (i : Interval Rat) (s : Set Rat) : Prop where
  upper : IsGreatest s i.upper
  lower : IsLeast s i.lower

/-- Neither the known bounds nor the choice between them and exact optima move the extremes. -/
theorem improve_spans {i : Interval Rat} {o : Optima Rat} {s : Set Rat} (h : o.Exact s)
    (hi : ∀ p ∈ s, i.Has p) (hs : s.Nonempty) : (i.improve o.upper o.lower).Spans s := by
  rw [improve_eq]
  cases h with
  | empty hempty => exact absurd hempty hs.ne_empty
  | @extremes u l hu hl =>
    have hule : u ≤ i.upper := (hi u hu.1).2
    have hlle : i.lower ≤ l := (hi l hl.1).1
    refine ⟨?_, ?_⟩
    · show IsGreatest s (min i.upper u)
      rw [min_eq_right hule]
      exact hu
    · show IsLeast s (max i.lower l)
      rw [max_eq_right hlle]
      exact hl

/-- Without any number the known bounds stay. -/
theorem improve_empty {i : Interval Rat} {o : Optima Rat} (h : o.Exact ∅) :
    i.improve o.upper o.lower = i := by
  rw [improve_eq]
  cases h with
  | empty _ =>
    show Interval.mk (min i.upper i.upper) (max i.lower i.lower) = i
    rw [min_self, max_self]
  | extremes hu _ => exact absurd hu.1 (Set.notMem_empty _)

/-- Known bounds of a layer, improved by optima of an exact solver, are the extremes of the affine values;
without any feasible assignment they stay. -/
theorem improveAll_exact {solver : Solver Rat} {m : Model Rat} {prev : List VarId}
    {ns : List (Neuron Rat)} {is : List (Interval Rat)} {os : List (Optima Rat)} (hs : solver.Exact)
    (hm : m.WellFormed) (hp : m.Plain) (hprev : ∀ id ∈ prev, id < m.nextVar)
    (hi : List.Forall₂ (fun n i => ∀ v ∈ m.readings prev, i.Has (n.preactivation v)) ns is)
    (ho : List.Forall₂ (fun n o => o.From solver false m prev n) ns os) :
    ((m.readings prev).Nonempty →
        List.Forall₂ (fun n i => i.Spans (n.preactivation '' m.readings prev)) ns (improveAll is os)) ∧
      (m.readings prev = ∅ → improveAll is os = is) := by
  induction hi generalizing os with
  | nil =>
    cases ho
    exact ⟨fun _ => .nil, fun _ => rfl⟩
  | @cons n i ns is hi _ ih =>
    cases ho with
    | @cons _ o _ os ho hos =>
    obtain ⟨hspans, hstay⟩ := ih hos
    have hexact := ho.exact hs hm hp hprev hi
    constructor
    · intro hne
      have hall : ∀ p ∈ n.preactivation '' m.readings prev, i.Has p := by
        rintro _ ⟨v, hv, rfl⟩
        exact hi v hv
      exact .cons (improve_spans hexact hall (hne.image _)) (hspans hne)
    · intro hempty
      rw [hempty, Set.image_empty] at hexact
      show i.improve o.upper o.lower :: improveAll is os = i :: is
      rw [improve_empty hexact, hstay hempty]

end ReluMilp
