import Mathlib.Analysis.Convex.Hull
import ReluMilp.Proofs.Problems
import ReluMilp.Proofs.Relaxing
import ReluMilp.Proofs.Revisions

/-!
# Ideal rows

With a binary variable the rows of a hidden neuron describe the graph of the rectifier over its interval, and
with one that takes every value from zero to one they describe the convex hull of that graph: no stronger
linear rows exist. So the affine value keeps to the interval in every relaxed problem.

* `Interval.graph` — the graph; `bigMPairs` — the pairs of the affine value and the value that the rows admit;
* `holds_bigMBlocks`, `mem_bigMPairs` — what the two rows say, and what that means for pairs;
* `LooseBigM.has`, `LooseBigM.combine`, `LooseBigM.mem_hull` — such values keep to the interval, are closed under
  convex combinations and lie in the hull;
* `bigMPairs_graph`, `bigMPairs_hull` — both descriptions are exact;
* `HiddenUnit.InRange`, `HiddenUnit.Stands.inRange`, `Formulation.Kept.inRange` — neurons of a model in the
  relaxed problems about it;
* `ideal_neurons` — all of it.
-/

namespace ReluMilp

open Scalar

/-! ### Rows of a neuron -/

/-- The graph of the rectifier over an interval. -/
def Interval.graph (i : Interval Rat) : Set (Rat × Rat) := {q | i.Has q.1 ∧ q.2 = max 0 q.1}

/-- The affine values `x - s` and the values `x` of a hidden neuron that its two rows admit, its binary
variable in some set. -/
def bigMPairs (name layer neuron : Value) (x s z : VarId) (i : Interval Rat) (switches : Set Rat) :
    Set (Rat × Rat) :=
  {q | ∃ y : Assignment Rat, 0 ≤ y x ∧ 0 ≤ y s ∧ y z ∈ switches ∧
    (∀ d ∈ (bigMBlocks name layer neuron x s z i).flatMap (·.rows), d.Holds y) ∧ q = (y x - y s, y x)}

section Rows

variable {name layer neuron : Value} {x s z : VarId} {i : Interval Rat} {y : Assignment Rat}

/-- The first row bounds the value of a neuron that is on, the second one what is cut off. -/
theorem holds_bigMBlocks :
    (∀ d ∈ (bigMBlocks name layer neuron x s z i).flatMap (·.rows), d.Holds y) ↔
      y x ≤ max 0 i.upper * (1 - y z) ∧ y s ≤ max 0 (-i.lower) * y z := by
  obtain ⟨t, t', hrows⟩ := flatMap_bigMBlocks name layer neuron x s z i
  rw [hrows, List.forall_mem_cons, List.forall_mem_singleton, ← RowDraft.holds_toRow _ 0,
    ← RowDraft.holds_toRow _ 0, holds_upper, holds_lower, sub_nonpos, mul_sub, mul_one, le_sub_iff_add_le]

/-- With a range for the binary variable, the rows admit the pairs that belong to some values of the other
two variables. -/
theorem mem_bigMPairs {relax : Bool} {switches : Set Rat} {q : Rat × Rat}
    (hrange : ∀ a, a ∈ switches ↔ (0 ≤ a ∧ a ≤ 1) ∧ (relax = false → a = 0 ∨ a = 1))
    (hxs : x ≠ s) (hxz : x ≠ z) (hsz : s ≠ z) :
    q ∈ bigMPairs name layer neuron x s z i switches ↔ ∃ b c, LooseBigM relax i q.1 q.2 b c := by
  constructor
  · rintro ⟨y, hx, hs, hz, hrows, rfl⟩
    obtain ⟨hu, hl⟩ := holds_bigMBlocks.1 hrows
    obtain ⟨hswitch, hwhole⟩ := (hrange _).1 hz
    rw [mul_sub, mul_one, le_sub_iff_add_le] at hu
    exact ⟨y s, y z, hx, hs, hswitch, hwhole, hu, sub_nonpos.2 hl, rfl⟩
  · rintro ⟨b, c, h⟩
    have hnodup : [x, s, z].Nodup := by simp [hxs, hxz, hsz]
    have hlen : [q.2, b, c].length = [x, s, z].length := rfl
    obtain ⟨y, hvals, -⟩ := exists_assignment hnodup hlen fun _ => 0
    obtain ⟨hx, hvals⟩ := List.cons.inj hvals
    obtain ⟨hs, hvals⟩ := List.cons.inj hvals
    obtain ⟨hz, -⟩ := List.cons.inj hvals
    refine ⟨y, ?_, ?_, ?_, holds_bigMBlocks.2 ⟨?_, ?_⟩, ?_⟩
    · rw [hx]
      exact h.value_nonneg
    · rw [hs]
      exact h.slack_nonneg
    · rw [hz]
      exact (hrange c).2 ⟨h.switch, h.whole⟩
    · rw [hx, hz, mul_sub, mul_one, le_sub_iff_add_le]
      exact h.upper
    · rw [hs, hz]
      exact sub_nonpos.1 h.lower
    · rw [hx, hs, h.affine]

end Rows

/-! ### Convex combinations -/

namespace LooseBigM

variable {relax : Bool} {i : Interval Rat} {p a s z p' a' s' z' : Rat}

/-- The affine value keeps to an interval around zero. -/
theorem has (h : LooseBigM relax i p a s z) (hl : i.lower ≤ 0) (hu : 0 ≤ i.upper) : i.Has p := by
  have hupper := h.upper
  have hlower := h.lower
  rw [max_eq_right hu] at hupper
  rw [max_eq_right (neg_nonneg.2 hl)] at hlower
  have hon : 0 ≤ i.upper * z := mul_nonneg hu h.switch.1
  have hoff : -i.lower * z ≤ -i.lower := mul_le_of_le_one_right (neg_nonneg.2 hl) h.switch.2
  constructor
  · linarith [h.value_nonneg, h.affine]
  · linarith [h.slack_nonneg, h.affine]

/-- Convex combinations of values that satisfy the relaxed rows satisfy them. -/
theorem combine (h : LooseBigM true i p a s z) (h' : LooseBigM true i p' a' s' z') {b c : Rat}
    (hb : 0 ≤ b) (hc : 0 ≤ c) (hbc : b + c = 1) :
    LooseBigM true i (b * p + c * p') (b * a + c * a') (b * s + c * s') (b * z + c * z') where
  value_nonneg := add_nonneg (mul_nonneg hb h.value_nonneg) (mul_nonneg hc h'.value_nonneg)
  slack_nonneg := add_nonneg (mul_nonneg hb h.slack_nonneg) (mul_nonneg hc h'.slack_nonneg)
  switch := by
    refine ⟨add_nonneg (mul_nonneg hb h.switch.1) (mul_nonneg hc h'.switch.1), ?_⟩
    calc b * z + c * z' ≤ b * 1 + c * 1 := add_le_add (mul_le_mul_of_nonneg_left h.switch.2 hb)
          (mul_le_mul_of_nonneg_left h'.switch.2 hc)
      _ = 1 := by rw [mul_one, mul_one, hbc]
  whole := nofun
  upper := by
    calc b * a + c * a' + max 0 i.upper * (b * z + c * z')
        = b * (a + max 0 i.upper * z) + c * (a' + max 0 i.upper * z') := by ring
      _ ≤ b * max 0 i.upper + c * max 0 i.upper := add_le_add (mul_le_mul_of_nonneg_left h.upper hb)
          (mul_le_mul_of_nonneg_left h'.upper hc)
      _ = max 0 i.upper := by rw [← add_mul, hbc, one_mul]
  lower := by
    calc b * s + c * s' - max 0 (-i.lower) * (b * z + c * z')
        = b * (s - max 0 (-i.lower) * z) + c * (s' - max 0 (-i.lower) * z') := by ring
      _ ≤ 0 := add_nonpos (mul_nonpos_of_nonneg_of_nonpos hb h.lower)
          (mul_nonpos_of_nonneg_of_nonpos hc h'.lower)
  affine := by
    rw [← h.affine, ← h'.affine]
    ring

/-- Such values are a combination of a neuron that is on and of one that is off. -/
theorem mem_hull (h : LooseBigM true i p a s z) (hl : i.lower ≤ 0) (hu : 0 ≤ i.upper) :
    (p, a) ∈ convexHull Rat i.graph := by
  have hupper := h.upper
  have hlower := h.lower
  rw [max_eq_right hu] at hupper
  rw [max_eq_right (neg_nonneg.2 hl)] at hlower
  have hz : 0 ≤ 1 - z := sub_nonneg.2 h.switch.2
  have ha : a ≤ i.upper * (1 - z) := by linarith
  have hs : s ≤ -i.lower * z := by linarith
  -- a share of zero leaves nothing to divide
  have ha₀ : 1 - z = 0 → a = 0 := by
    intro h₀
    rw [h₀, mul_zero] at ha
    exact le_antisymm ha h.value_nonneg
  have hs₀ : z = 0 → s = 0 := by
    intro h₀
    rw [h₀, mul_zero] at hs
    exact le_antisymm hs h.slack_nonneg
  have hon : (a / (1 - z), a / (1 - z)) ∈ i.graph := by
    have hnonneg : 0 ≤ a / (1 - z) := div_nonneg h.value_nonneg hz
    exact ⟨⟨hl.trans hnonneg, div_le_of_le_mul₀ hz hu ha⟩, (max_eq_right hnonneg).symm⟩
  have hoff : (-(s / z), 0) ∈ i.graph := by
    have hneg : -(s / z) ≤ 0 := neg_nonpos.2 (div_nonneg h.slack_nonneg h.switch.1)
    have hle : s / z ≤ -i.lower := div_le_of_le_mul₀ h.switch.1 (neg_nonneg.2 hl) hs
    exact ⟨⟨le_neg.2 hle, hneg.trans hu⟩, (max_eq_left hneg).symm⟩
  have heq : (p, a) = (1 - z) • (a / (1 - z), a / (1 - z)) + z • (-(s / z), (0 : Rat)) := by
    simp only [Prod.smul_mk, smul_eq_mul, Prod.mk_add_mk, mul_zero, add_zero, mul_neg,
      mul_div_cancel_of_imp' ha₀, mul_div_cancel_of_imp' hs₀, ← sub_eq_add_neg, h.affine]
  rw [heq]
  exact convex_convexHull Rat i.graph (subset_convexHull Rat _ hon) (subset_convexHull Rat _ hoff) hz
    h.switch.1 (sub_add_cancel 1 z)

end LooseBigM

section Exact

variable {name layer neuron : Value} {x s z : VarId} {i : Interval Rat}

/-- With a binary variable the rows describe the graph. -/
theorem bigMPairs_graph (hxs : x ≠ s) (hxz : x ≠ z) (hsz : s ≠ z) (hl : i.lower ≤ 0) (hu : 0 ≤ i.upper) :
    bigMPairs name layer neuron x s z i {0, 1} = i.graph := by
  have hrange : ∀ a : Rat, a ∈ ({0, 1} : Set Rat) ↔ (0 ≤ a ∧ a ≤ 1) ∧ (false = false → a = 0 ∨ a = 1) :=
    fun a => (@admits_binary z "" a).symm.trans (@admits_loosened_binary false z "" a)
  ext q
  rw [mem_bigMPairs hrange hxs hxz hsz]
  constructor
  · rintro ⟨b, c, h⟩
    exact ⟨h.has hl hu, (BigM.rectifies ⟨h.value_nonneg, h.slack_nonneg, h.whole rfl, h.upper, h.lower,
      h.affine⟩).value⟩
  · rintro ⟨hp, hq⟩
    refine ⟨max 0 (-q.1), switchAt q.1 false, ?_⟩
    rw [hq]
    exact ((rectifies_switchAt q.1 false).bigM hp).loose false

/-- With a relaxed one they describe its convex hull. -/
theorem bigMPairs_hull (hxs : x ≠ s) (hxz : x ≠ z) (hsz : s ≠ z) (hl : i.lower ≤ 0) (hu : 0 ≤ i.upper) :
    bigMPairs name layer neuron x s z i (Set.Icc 0 1) = convexHull Rat i.graph := by
  have hrange : ∀ a : Rat, a ∈ Set.Icc (0 : Rat) 1 ↔ (0 ≤ a ∧ a ≤ 1) ∧ (true = false → a = 0 ∨ a = 1) :=
    fun a => ⟨fun h => ⟨h, nofun⟩, fun h => h.1⟩
  refine Set.Subset.antisymm (fun q hq => ?_) (convexHull_min (fun q hq => ?_) ?_)
  · obtain ⟨b, c, h⟩ := (mem_bigMPairs hrange hxs hxz hsz).1 hq
    exact h.mem_hull hl hu
  · rw [mem_bigMPairs hrange hxs hxz hsz, hq.2]
    exact ⟨_, _, ((rectifies_switchAt q.1 false).bigM hq.1).loose true⟩
  · intro q hq q' hq' b c hb hc hbc
    rw [mem_bigMPairs hrange hxs hxz hsz] at hq hq' ⊢
    obtain ⟨v, t, h⟩ := hq
    obtain ⟨v', t', h'⟩ := hq'
    exact ⟨_, _, h.combine h' hb hc hbc⟩

end Exact

/-! ### Relaxed problems -/

/-- A hidden neuron with an interval around zero keeps its affine value there. -/
def HiddenUnit.InRange (y : Assignment Rat) (prev : List VarId) (n : Neuron Rat) (_ : HiddenUnit)
    (i : Interval Rat) : Prop :=
  i.lower ≤ 0 → 0 ≤ i.upper → i.Has (n.preactivation (prev.map y))

section Problems

variable {m m' : Model Rat} {y : Assignment Rat}

/-- What is feasible in a problem about a relaxed model is feasible in the relaxed model. -/
theorem Model.Poses.feasible (h : m.Poses true m') (hy : m'.Feasible y) : (m.loosened true).Feasible y := by
  obtain ⟨p, e, maximize, hset⟩ := h
  rw [setObjective_eq_ok hset] at hy
  exact hy

theorem HiddenUnit.Stands.inRange {prev : List VarId} {n : Neuron Rat} {u : HiddenUnit} {i : Interval Rat}
    (h : u.Stands m prev n i) (hm : m.WellFormed) (hp : m.Poses true m') (hy : m'.Feasible y) :
    u.InRange y prev n i :=
  fun hl hu => LooseBigM.has ((h.loosened_iff hm).1 ((hp.feasible hy).satisfiedOn _ _)) hl hu

theorem Formulation.Kept.inRange {f : Formulation Rat} {base : Model Rat} {b : Body}
    {table : List (List (Interval Rat))} {last : List (Interval Rat)} (h : f.Kept base m b table last)
    (hp : m.Poses true m') (hy : m'.Feasible y) :
    Layerwise (HiddenUnit.InRange y) b.inputs f.network.hidden b.hidden table :=
  h.placed.stands.hidden.imp fun _ _ _ _ _ hu => hu.inRange h.wellFormed hp hy

end Problems

/-- The rows of a hidden neuron are ideal. For bounds around zero, the pairs of affine value and value that they
admit are the graph of the rectifier between the bounds, and with a relaxed binary variable the convex hull
of that graph. So in every relaxed problem about a model in which the neuron stands the affine value keeps
to the bounds, and tightening with relaxation asks the solver about such problems only. That goes for the
hidden layers at any point of a build and for those of a formulated network, also after replacements. -/
theorem ideal_neurons :
    (∀ {name layer neuron : Value} {x s z : VarId} {i : Interval Rat}, x ≠ s → x ≠ z → s ≠ z →
      i.lower ≤ 0 → 0 ≤ i.upper →
      bigMPairs name layer neuron x s z i (Set.Icc 0 1) = convexHull Rat i.graph ∧
      bigMPairs name layer neuron x s z i {0, 1} = i.graph) ∧
    (∀ {name layer neuron : Value} {x s z : VarId} {i : Interval Rat} {y : Assignment Rat},
      (∀ d ∈ (bigMBlocks name layer neuron x s z i).flatMap (·.rows), d.Holds y) ↔
        y x ≤ max 0 i.upper * (1 - y z) ∧ y s ≤ max 0 (-i.lower) * y z) ∧
    (∀ {m : Model Rat} {prev : List VarId} {n : Neuron Rat} {u : HiddenUnit} {i : Interval Rat},
      m.WellFormed → u.Stands m prev n i → i.lower ≤ 0 → 0 ≤ i.upper →
      ∀ m' y, m.Poses true m' → m'.Feasible y → i.Has (n.preactivation (prev.map y))) ∧
    (∀ {w : Workspace Rat} {prev : List VarId} {n : Neuron Rat} {u : HiddenUnit} {i : Interval Rat}
      {solver solver' : Solver Rat} {settings : Settings},
      w.model.WellFormed → u.Stands w.model prev n i → i.lower ≤ 0 → 0 ≤ i.upper → settings.relax = true →
      (∀ k m', (∀ y, m'.Feasible y → i.Has (n.preactivation (prev.map y))) → solver k m' = solver' k m') →
      ∀ jobs before l known, tightenLayer solver settings jobs before l known w =
        tightenLayer solver' settings jobs before l known w) ∧
    (∀ {solver : Solver Rat} {r : Request Rat} {k : Nat} {prev : List VarId} {rectified : Bool}
      {before : List (Interval Rat)} {ls : List (Layer Rat)} {stem : Stem Rat} {w w' : Workspace Rat},
      w.model.WellFormed → (∀ id ∈ prev, id < w.model.nextVar) → r.Fits k ls →
      buildHidden solver r (k + 1) prev rectified before ls w = .ok stem w' →
      ∀ m' y, w'.model.Poses true m' → m'.Feasible y →
        Layerwise (HiddenUnit.InRange y) prev ls stem.units stem.table) ∧
    ∀ {solver : Solver Rat} {settings : Option Settings} {a : BuildArguments Rat} {f g : Formulation Rat}
      {cs : List (Revision Rat)} {w v w' : Workspace Rat},
      w.model.WellFormed → a.Faithful → formulateNetwork solver settings a w = .ok f v →
      Revisions f v cs g w' →
      ∃ b table last, g.body? = some b ∧ g.table = table ++ [last] ∧
        ∀ m' y, w'.model.Poses true m' → m'.Feasible y →
          Layerwise (HiddenUnit.InRange y) b.inputs g.network.hidden b.hidden table := by
  refine ⟨fun hxs hxz hsz hl hu => ⟨bigMPairs_hull hxs hxz hsz hl hu, bigMPairs_graph hxs hxz hsz hl hu⟩,
    holds_bigMBlocks, fun hm h hl hu m' y hp hy => h.inRange hm hp hy hl hu, ?_, ?_, ?_⟩
  · intro w prev n u i solver solver' settings hm h hl hu hrelax hagree jobs before l known
    refine tightenLayer_congr (fun k m' hp => hagree k m' fun y hy => ?_) jobs before l known
    rw [hrelax] at hp
    exact h.inRange hm hp hy hl hu
  · intro solver r k prev rectified before ls stem w w' hm hprev hfits h m' y hp hy
    obtain ⟨hadded, -⟩ := buildHidden_added hprev hfits h
    exact hadded.stands.imp fun _ _ _ _ _ hu => hu.inRange (hadded.adds.wellFormed hm) hp hy
  · intro solver settings a f g cs w v w' hm ha h hrun
    obtain ⟨-, b, table, last, hkept⟩ := formulateNetwork_keeps hm ha h
    obtain ⟨b', table', hkept'⟩ := hkept.run (Model.wellFormed_parameters hm _) hrun
    exact ⟨b', table', last, hkept'.body, hkept'.stored, fun m' y hp hy => hkept'.inRange hp hy⟩

/-- Between minus one and two, zero with the value two thirds lies in the hull but not on the graph. The neurons of
the absolute value on numbers from minus one to one keep to these bounds in relaxed problems. -/
theorem ideal_neurons_absolute :
    ((0, 2 / 3) ∈ convexHull Rat (Interval.graph ⟨2, -1⟩) ∧
      (0, 2 / 3) ∉ bigMPairs .null .null .null 0 1 2 ⟨2, -1⟩ {0, 1}) ∧
    ∃ f w' b, formulateNetwork .ideal none (.absolute "fast") (.ofModel (.empty "model")) = .ok f w' ∧
      f.body? = some b ∧
      (∀ m' y, w'.model.Poses true m' → m'.Feasible y →
        Layerwise (HiddenUnit.InRange y) b.inputs f.network.hidden b.hidden [[⟨1, -1⟩, ⟨1, -1⟩]]) ∧
      ∀ solver solver' : Solver Rat,
        (∀ k m', (∀ y, m'.Feasible y → Interval.Has ⟨1, -1⟩ (Neuron.preactivation ⟨[1], 0⟩ (b.inputs.map y))) →
          solver k m' = solver' k m') →
        tightenLayer solver { Settings.default with relax := true } .inPlace (lastVars b.inputs b.hidden)
            Network.absolute.output [⟨2, 0⟩] w' =
          tightenLayer solver' { Settings.default with relax := true } .inPlace (lastVars b.inputs b.hidden)
            Network.absolute.output [⟨2, 0⟩] w' := by
  obtain ⟨hideal, hrows, -, htighten, -, hformulated⟩ := ideal_neurons
  constructor
  · obtain ⟨hhull, hgraph⟩ := @hideal .null .null .null 0 1 2 ⟨2, -1⟩ (by decide) (by decide) (by decide)
      (by norm_num) (by norm_num)
    rw [← hhull, hgraph]
    constructor
    · refine ⟨fun _ => 2 / 3, by norm_num, by norm_num, ⟨by norm_num, by norm_num⟩, hrows.2 ⟨?_, ?_⟩, ?_⟩
      · norm_num
      · norm_num
      · norm_num
    · rintro ⟨-, hvalue⟩
      norm_num at hvalue
  · have hrun : (match formulateNetwork .ideal none (.absolute "fast") (.ofModel (.empty "model")) with
        | .ok f _ => decide (f.table = [[⟨1, -1⟩, ⟨1, -1⟩], [⟨2, 0⟩]])
        | _ => false) = true := by decide +kernel
    split at hrun
    · rename_i f w' h
      have hm : (Workspace.ofModel (.empty "model") : Workspace Rat).model.WellFormed :=
        Model.wellFormed_empty "model"
      have ha := BuildArguments.faithful_absolute "fast"
      obtain ⟨b, table, last, hb, htable, hrange⟩ := hformulated hm ha h .refl
      obtain ⟨hn, b', table', last', hkept⟩ := formulateNetwork_keeps hm ha h
      have hstored : f.table = [[⟨1, -1⟩, ⟨1, -1⟩]] ++ [[⟨2, 0⟩]] := of_decide_eq_true hrun
      cases hb.symm.trans hkept.body
      cases (List.append_inj' (htable.symm.trans hstored) rfl).1
      cases (List.append_inj' (hkept.stored.symm.trans hstored) rfl).1
      refine ⟨f, w', b, h, hb, hrange, fun solver solver' hagree => ?_⟩
      have hstands := hkept.placed.stands.hidden
      rw [← Except.ok.inj hn] at hstands
      obtain ⟨u, hu⟩ : ∃ u : HiddenUnit, u.Stands w'.model b.inputs ⟨[1], 0⟩ ⟨1, -1⟩ := by
        generalize b.hidden = uss at hstands
        cases hstands with
        | cons hlayer _ =>
          cases hlayer with
          | cons hu _ => exact ⟨_, hu⟩
      exact htighten hkept.wellFormed hu (by norm_num) (by norm_num) rfl hagree .inPlace _ _ _
    · cases hrun

end ReluMilp
