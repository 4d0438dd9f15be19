import ReluMilp.Proofs.Enclosure
import ReluMilp.Proofs.Retightening

/-!
# Every evaluation is a solution

Without given bounds, the bounds of every layer are bounds on all feasible assignments of the model so far,
so that no evaluation of the network is lost.

* `holds_boxDrafts`, `holds_rangeDrafts`, `holds_outputDrafts` — the rows of inputs and outputs;
* `layerBounds_has` — the bounds of a layer enclose its affine values wherever the model is feasible;
* `buildHidden_feasible`, `assemble_feasible` — what is feasible after hidden layers and after all rows;
* `Body.Extends`, `Request.build_extends`, `formulateNetwork_extends` — a network on new variables that
  restricts a model to some inputs and their evaluations;
* `feasible_iff_evaluates` — what is feasible after a network is formulated.
-/

namespace ReluMilp

open Scalar

/-! ### Rows of inputs and outputs -/

theorem forall_zipWith_iff {β γ δ : Type} {f : β → γ → δ} {P : δ → Prop} {Q : γ → Prop} {bs : List β}
    {cs : List γ} (hlen : cs.length ≤ bs.length) (h : ∀ b c, P (f b c) ↔ Q c) :
    (∀ d ∈ List.zipWith f bs cs, P d) ↔ ∀ c ∈ cs, Q c := by
  induction cs generalizing bs with
  | nil =>
    rw [List.zipWith_nil_right]
    exact ⟨fun _ _ hc => absurd hc List.not_mem_nil, fun _ _ hd => absurd hd List.not_mem_nil⟩
  | cons c cs ih =>
    cases bs with
    | nil => cases hlen
    | cons b bs =>
      rw [List.zipWith_cons_cons, List.forall_mem_cons, List.forall_mem_cons, h,
        ih (Nat.le_of_succ_le_succ hlen)]

/-- Named rows for pairs of variables and of something else. -/
theorem holds_named_iff {β : Type} {f : String → VarId × β → RowDraft Rat} {R : VarId → β → Prop}
    {t : String} {k : Nat} {xs : List VarId} {bs : List β} {x : Assignment Rat}
    (hk : xs.length ≤ k) (hlen : xs.length = bs.length)
    (h : ∀ t v b, (f t (v, b)).Holds x ↔ R v b) :
    (∀ d ∈ List.zipWith f (elementNames t k) (xs.zip bs), d.Holds x) ↔ List.Forall₂ R xs bs := by
  rw [List.forall₂_iff_zip]
  have hnames : (xs.zip bs).length ≤ (elementNames t k).length := by
    rw [length_elementNames, List.length_zip]
    exact (min_le_left _ _).trans hk
  rw [forall_zipWith_iff (Q := fun p => R p.1 p.2) hnames fun t p => h t p.1 p.2]
  exact ⟨fun hall => ⟨hlen, fun hmem => hall _ hmem⟩, fun hall p hp => hall.2 hp⟩

theorem holds_boundDrafts {t : String} {sense : Sense} {xs : List VarId} {bs : List Rat}
    {x : Assignment Rat} (hlen : xs.length = bs.length) :
    (∀ d ∈ boundDrafts t sense xs bs, d.Holds x) ↔
      List.Forall₂ (fun v b => sense.Compares (x v) b) xs bs := by
  refine holds_named_iff le_rfl hlen fun t v b => ?_
  show sense.Compares (1 * x v + 0) b ↔ _
  rw [one_mul, add_zero]

theorem forall₂_has_map_iff {is : List (Interval Rat)} {xs : List VarId} {x : Assignment Rat} :
    List.Forall₂ Interval.Has is (xs.map x) ↔
      List.Forall₂ (fun v u => x v ≤ u) xs (is.map (·.upper)) ∧
        List.Forall₂ (fun v l => l ≤ x v) xs (is.map (·.lower)) := by
  rw [List.forall₂_map_right_iff, List.forall₂_map_right_iff, List.forall₂_map_right_iff]
  induction is generalizing xs with
  | nil =>
    cases xs with
    | nil => exact ⟨fun _ => ⟨.nil, .nil⟩, fun _ => .nil⟩
    | cons v xs => exact ⟨fun h => (nomatch h), fun h => (nomatch h.1)⟩
  | cons i is ih =>
    cases xs with
    | nil => exact ⟨fun h => (nomatch h), fun h => (nomatch h.1)⟩
    | cons v xs =>
      rw [List.forall₂_cons, List.forall₂_cons, List.forall₂_cons, ih]
      constructor
      · rintro ⟨⟨hl, hu⟩, hus, hls⟩
        exact ⟨⟨hu, hus⟩, hl, hls⟩
      · rintro ⟨⟨hu, hus⟩, hl, hls⟩
        exact ⟨⟨hl, hu⟩, hus, hls⟩

section Requests

variable {r : Request Rat} {xs : List VarId} {x : Assignment Rat}

/-- The rows of the inputs keep them in the box. -/
theorem holds_boxDrafts (hlen : xs.length = r.box.length) :
    (∀ d ∈ r.boxDrafts xs, d.Holds x) ↔ List.Forall₂ Interval.Has r.box (xs.map x) := by
  unfold Request.boxDrafts
  rw [List.forall_mem_append, holds_boundDrafts (by rw [List.length_map, hlen]),
    holds_boundDrafts (by rw [List.length_map, hlen]), forall₂_has_map_iff]
  exact Iff.rfl

/-- The rows of the outputs, if they are bounded, keep them in the range. -/
theorem holds_rangeDrafts (hlen : ∀ range, r.plan = .output range → xs.length = range.length) :
    (∀ d ∈ r.rangeDrafts xs, d.Holds x) ↔
      ∀ range, r.plan = .output range → List.Forall₂ Interval.Has range (xs.map x) := by
  unfold Request.rangeDrafts rangeBlocks
  cases hp : r.plan with
  | fast => exact ⟨fun _ _ h => (nomatch h), fun _ _ hd => absurd hd List.not_mem_nil⟩
  | standard => exact ⟨fun _ _ h => (nomatch h), fun _ _ hd => absurd hd List.not_mem_nil⟩
  | output range =>
    have hl := hlen range hp
    rw [List.flatMap_cons, List.flatMap_singleton, List.forall_mem_append,
      holds_boundDrafts (by rw [List.length_map, hl]), holds_boundDrafts (by rw [List.length_map, hl])]
    constructor
    · rintro ⟨hlower, hupper⟩ range' hrange
      cases hrange
      exact forall₂_has_map_iff.2 ⟨hupper, hlower⟩
    · intro h
      obtain ⟨hupper, hlower⟩ := forall₂_has_map_iff.1 (h range rfl)
      exact ⟨hlower, hupper⟩

/-- The affine rows of the outputs. -/
theorem holds_outputDrafts {t : String} {l : Layer Rat} {prev : List VarId}
    (hlen : xs.length = l.outputs) :
    (∀ d ∈ outputDrafts t xs l prev, d.Holds x) ↔ xs.map x = l.preactivations (prev.map x) := by
  unfold outputDrafts Layer.preactivations
  rw [holds_named_iff (R := fun v n => x v = n.preactivation (prev.map x)) hlen.le hlen
    fun t v n => (RowDraft.holds_toRow _ 0 x).symm.trans (holds_output t 0 v n prev x)]
  rw [← List.forall₂_eq_eq_eq, List.forall₂_map_left_iff, List.forall₂_map_right_iff]

end Requests

/-! ### Bounds that hold -/

theorem improveAll_has {ns : List (Neuron Rat)} {is : List (Interval Rat)} {os : List (Optima Rat)}
    {vs : List Rat} (hi : List.Forall₂ (fun n i => i.Has (n.preactivation vs)) ns is)
    (ho : List.Forall₂ (fun n o => o.Bounds (n.preactivation vs)) ns os) :
    List.Forall₂ (fun n i => i.Has (n.preactivation vs)) ns (improveAll is os) := by
  induction hi generalizing os with
  | nil => exact .nil
  | cons h _ ih =>
    cases ho with
    | cons hb hbs => exact .cons (improve_has hb h) (ih hbs)

/-- Without given bounds, the bounds of a layer enclose its affine values on every feasible assignment. -/
theorem layerBounds_has {solver : Solver Rat} {r : Request Rat} {k : Nat} {prev : List VarId}
    {rectified : Bool} {before is : List (Interval Rat)} {l : Layer Rat} {w w' : Workspace Rat}
    {x : Assignment Rat} (hcover : solver.Covers r.settings.relax w.model prev) (hgiven : r.given = none)
    (h : layerBounds solver r k prev rectified before l w = .ok is w')
    (hbefore : Encloses rectified before (prev.map x)) (hx : w.model.Feasible x) :
    List.Forall₂ (fun n i => i.Has (n.preactivation (prev.map x))) l.neurons is := by
  have hint := l.intervals_has hbefore
  obtain ⟨-, ⟨table, ht, -⟩ | ⟨-, rfl | ⟨os, rfl, hos⟩⟩⟩ := layerBounds_eq_ok h
  · rw [hgiven] at ht
    cases ht
  · exact hint
  · exact improveAll_has hint (hos.imp fun n o ho => hcover n o x ho hx)

/-- With bounds of the affine values, the rows of a layer admit exactly the values of the rectifier. -/
theorem bigM_iff_rectifies {ns : List (Neuron Rat)} {us : List HiddenUnit} {is : List (Interval Rat)}
    {prev : List VarId} {x : Assignment Rat}
    (h : List.Forall₂ (fun n i => i.Has (n.preactivation (prev.map x))) ns is) :
    Forall₃ (HiddenUnit.BigM x prev) ns us is ↔ List.Forall₂ (HiddenUnit.Rectifies x prev) ns us := by
  constructor
  · exact fun hbig => hbig.forall₂ fun _ _ _ hb => BigM.rectifies hb
  · intro hr
    induction h generalizing us with
    | nil =>
      cases hr
      exact .nil
    | cons hi _ ih =>
      cases hr with
      | cons hu hus => exact .cons (Rectifies.bigM hu hi) (ih hus)

/-- A hidden layer with bounds of its affine values restricts a model to assignments that evaluate it. -/
theorem LayerAdded.feasible_iff {m m' : Model Rat} {prev : List VarId} {l : Layer Rat}
    {us : List HiddenUnit} {is : List (Interval Rat)} (h : LayerAdded m m' prev l us is)
    (hm : m.WellFormed) (hhas : ∀ x, m.Feasible x →
      List.Forall₂ (fun n i => i.Has (n.preactivation (prev.map x))) l.neurons is) (x : Assignment Rat) :
    m'.Feasible x ↔ m.Feasible x ∧ List.Forall₂ (HiddenUnit.Rectifies x prev) l.neurons us := by
  rw [h.adds.feasible_iff, satisfiedOn_layer h.stands (h.adds.wellFormed hm)]
  exact and_congr_right fun hx => bigM_iff_rectifies (hhas x hx)

/-- Bounds before the rectifier enclose what the next layer reads. -/
theorem encloses_next {ns : List (Neuron Rat)} {us : List HiddenUnit} {is : List (Interval Rat)}
    {prev : List VarId} {x : Assignment Rat}
    (h : List.Forall₂ (fun n i => i.Has (n.preactivation (prev.map x))) ns is)
    (hr : List.Forall₂ (HiddenUnit.Rectifies x prev) ns us) :
    Encloses true is ((us.map (·.x)).map x) := by
  unfold Encloses
  rw [if_pos rfl, List.forall₂_map_left_iff, List.forall₂_map_right_iff, List.forall₂_map_right_iff]
  induction h generalizing us with
  | nil =>
    cases hr
    exact .nil
  | cons hi _ ih =>
    cases hr with
    | cons hu hus =>
      refine .cons ?_ (ih hus)
      rw [hu.value]
      exact hi.clamp

/-! ### What is feasible on the way of a build -/

/-- Hidden layers on new variables restrict a model to assignments that evaluate them, and to no fewer. -/
theorem buildHidden_feasible {solver : Solver Rat} {r : Request Rat} {i : Nat} {prev : List VarId}
    {rectified : Bool} {before : List (Interval Rat)} {ls : List (Layer Rat)} {stem : Stem Rat}
    {base : Model Rat} {w w' : Workspace Rat} (hcover : solver.CoversBeside r.settings.relax base)
    (hw : base.Beside w.model) (hnew : ∀ id ∈ prev, base.nextVar ≤ id) (hgiven : r.given = none)
    (hm : w.model.WellFormed) (hprev : ∀ id ∈ prev, id < w.model.nextVar)
    (hbefore : ∀ x, w.model.Feasible x → Encloses rectified before (prev.map x))
    (h : buildHidden solver r (i + 1) prev rectified before ls w = .ok stem w') (x : Assignment Rat) :
    w'.model.Feasible x ↔
      w.model.Feasible x ∧ Along (HiddenUnit.Rectifies x) prev ls stem.units := by
  have hfits : ∀ i ls, r.Fits i ls := by
    intro i ls table ht
    rw [hgiven] at ht
    cases ht
  induction ls generalizing i prev rectified before stem w with
  | nil =>
    obtain ⟨rfl, rfl⟩ := Action.pure_eq_ok.1 h
    exact ⟨fun hx => ⟨hx, .nil⟩, fun hx => hx.1⟩
  | cons l ls ih =>
    obtain ⟨is, us, rest, w₁, w₂, his, hus, hrest, rfl⟩ := buildHidden_cons h
    have hm₁ := (layerBounds_eq_ok his).1
    have hlen := length_layerBounds (hfits i (l :: ls)) his
    have hprev₁ : ∀ id ∈ prev, id < w₁.model.nextVar := by
      rw [hm₁]
      exact hprev
    have hlayer := addHidden_added hprev₁ hlen hus
    rw [hm₁] at hlayer
    have hm₂ := hlayer.adds.wellFormed hm
    have hhas : ∀ y, w.model.Feasible y →
        List.Forall₂ (fun n i => i.Has (n.preactivation (prev.map y))) l.neurons is :=
      fun y hy => layerBounds_has (hcover hw hnew) hgiven his (hbefore y hy) hy
    have hstep : ∀ y, w₂.model.Feasible y ↔
        w.model.Feasible y ∧ List.Forall₂ (HiddenUnit.Rectifies y prev) l.neurons us :=
      hlayer.feasible_iff hm hhas
    have hnext : ∀ id ∈ us.map (·.x), id < w₂.model.nextVar :=
      fun id hid => (hlayer.adds.vars_new (mem_xs_unitVars hid)).2
    have hbefore₂ : ∀ y, w₂.model.Feasible y → Encloses true is ((us.map (·.x)).map y) :=
      fun y hy => encloses_next (hhas y ((hstep y).1 hy).1) ((hstep y).1 hy).2
    rw [← hm₁] at hw
    obtain ⟨hw₂, hnew₂⟩ := addHidden_beside hw hnew hus
    refine (ih hw₂ hnew₂ hm₂ hnext hbefore₂ hrest).trans ?_
    rw [hstep]
    constructor
    · rintro ⟨⟨hx, hl⟩, hls⟩
      exact ⟨hx, .cons hl hls⟩
    · rintro ⟨hx, _ | ⟨hl, hls⟩⟩
      exact ⟨⟨hx, hl⟩, hls⟩

/-- The inputs of an assembly restrict a model to the box. -/
theorem Request.Assembles.feasible_boxed {solver : Solver Rat} {r : Request Rat} {s : Assembled Rat}
    {stem : Stem Rat} {w w₁ w₂ w' : Workspace Rat} (h : r.Assembles solver s stem w w₁ w₂ w')
    (hr : r.WellFormed) (x : Assignment Rat) : w₁.model.Feasible x ↔
      w.model.Feasible x ∧ List.Forall₂ Interval.Has r.box (s.body.inputs.map x) := by
  have hin : s.body.inputs.length = r.box.length := by
    rw [h.inputs, List.length_range', hr.box_length]
  obtain ⟨t, ht⟩ := h.boxed
  rw [ht, feasible_withRows, feasible_withFree]
  exact and_congr_right fun _ => holds_boxDrafts hin

/-- What an assembly restricts a model to: inputs in the box that are evaluated, with outputs in the
range if there is one. -/
theorem assemble_feasible {solver : Solver Rat} {r : Request Rat} {s : Assembled Rat} {stem : Stem Rat}
    {w w₁ w₂ w' : Workspace Rat} (hcover : solver.CoversBeside r.settings.relax w.model)
    (hgiven : r.given = none) (hr : r.WellFormed) (hm : w.model.WellFormed) (h : r.Assembles solver s stem w w₁ w₂ w') (x : Assignment Rat) :
    w'.model.Feasible x ↔ w.model.Feasible x ∧
      (List.Forall₂ Interval.Has r.box (s.body.inputs.map x) ∧
        ∀ range, r.plan = .output range → List.Forall₂ Interval.Has range (s.body.outputs.map x)) ∧
      s.body.Evaluates r.network x := by
  have hout : s.body.outputs.length = r.network.output.outputs := by
    rw [h.outputs, List.length_range']
    rfl
  have hbox : ∀ y, w₁.model.Feasible y ↔
      w.model.Feasible y ∧ List.Forall₂ Interval.Has r.box (s.body.inputs.map y) := h.feasible_boxed hr
  have hm₁ := h.adds_inputs.wellFormed hm
  have hlast := (h.hidden_added hr).2.1
  have hbefore : ∀ y, w₁.model.Feasible y → Encloses false r.box (s.body.inputs.map y) :=
    fun y hy => ((hbox y).1 hy).2
  have hhidden := buildHidden_feasible hcover h.beside_inputs h.inputs_new hgiven hm₁
    (fun id hid => (h.adds_inputs.vars_new hid).2) hbefore h.hidden x
  rw [← h.units] at hhidden
  obtain ⟨t, t', ht⟩ := h.finished
  rw [ht, feasible_withRows, feasible_withFree, hhidden, hbox]
  have hrows : (∀ d ∈ outputDrafts t' s.body.outputs r.network.output stem.last ++
      r.rangeDrafts s.body.outputs, d.Holds x) ↔
      s.body.outputs.map x =
          r.network.output.preactivations ((lastVars s.body.inputs s.body.hidden).map x) ∧
        ∀ range, r.plan = .output range →
          List.Forall₂ Interval.Has range (s.body.outputs.map x) := by
    rw [List.forall_mem_append, holds_outputDrafts hout, hlast,
      holds_rangeDrafts fun range hp => hout.trans (hr.range_length range hp).symm]
  constructor
  · rintro ⟨⟨⟨hx, hb⟩, hh⟩, hd⟩
    obtain ⟨ho, hrange⟩ := hrows.1 hd
    exact ⟨hx, ⟨hb, hrange⟩, hh, ho⟩
  · rintro ⟨hx, ⟨hb, hrange⟩, hh, ho⟩
    exact ⟨⟨⟨hx, hb⟩, hh⟩, hrows.2 ⟨ho, hrange⟩⟩

/-- A network on new variables behind a model restricts it to inputs with a property that are
evaluated, and otherwise keeps it. -/
structure Body.Extends (b : Body) (n : Network Rat) (P : List Rat → Prop) (m m' : Model Rat) :
    Prop where
  wellFormed : m'.WellFormed
  shaped : b.Shaped n
  inputs : FreeStand m' b.inputs
  vars_new : ∀ id ∈ b.vars, m.nextVar ≤ id
  nextVar_le : m.nextVar ≤ m'.nextVar
  keeps : ∀ v ∈ m.vars, v ∈ m'.vars
  not_gapped : ¬m.Gapped → ¬m'.Gapped
  feasible_iff : ∀ x, m'.Feasible x ↔ m.Feasible x ∧ P (b.inputs.map x) ∧ b.Evaluates n x

namespace Body.Extends

variable {b : Body} {n : Network Rat} {P : List Rat → Prop} {m m' : Model Rat}

/-- Every input with the property extends a feasible assignment of the model before, with any choice
of the binary variables at zero. -/
theorem exists_extension (h : b.Extends n P m m') (hm : m.WellFormed) {x₀ : Assignment Rat}
    {v : List Rat} (on : VarId → Bool) (hx₀ : m.Feasible x₀) (hlen : v.length = n.inputs)
    (hv : P v) :
    ∃ x, m'.Feasible x ∧ b.inputs.map x = v ∧ (∀ id ∉ b.vars, x id = x₀ id) ∧
      Along (HiddenUnit.Chosen on x) b.inputs n.hidden b.hidden := by
  obtain ⟨x, heval, hchosen, hin, hoff⟩ := exists_evaluation h.shaped hlen on x₀
  have hold : m.Feasible x :=
    hx₀.congr hm fun id hid => hoff id fun hmem => absurd hid (not_lt.2 (h.vars_new id hmem))
  rw [← hin] at hv
  exact ⟨x, (h.feasible_iff x).2 ⟨hold, hv, heval⟩, hin, hoff, hchosen⟩

end Body.Extends

/-- A build without given bounds extends the model by inputs in the box, with outputs in the range if
there is one. -/
theorem Request.build_extends {solver : Solver Rat} {r : Request Rat} {f : Formulation Rat}
    {w w' : Workspace Rat} (hcover : solver.CoversBeside r.settings.relax w.model) (hgiven : r.given = none)
    (hr : r.WellFormed) (hm : w.model.WellFormed) (h : r.build solver w = .ok f w') :
    f.network = r.network ∧ ∃ b, f.body? = some b ∧
      b.Extends r.network (fun v => List.Forall₂ Interval.Has r.box v ∧
        ∀ range, r.plan = .output range → List.Forall₂ Interval.Has range (r.network.eval v))
        w.model w'.model := by
  rw [r.build_eq] at h
  obtain ⟨s, w₁, hs, h⟩ := Action.bind_eq_ok.1 h
  obtain ⟨stem, v, v', hass⟩ := assemble_eq_ok hs
  have hadds := hass.adds hr
  obtain ⟨hn, hm', hvars, b, table, last, hb, -, hsame, hstands⟩ :=
    finish_stands (hadds.wellFormed hm) (hass.stands hr) h
  have hfeas := finish_feasible hcover hr hm hass h
  refine ⟨hn, b, hb, hm', hstands.shaped, hstands.inputs, fun id hid => ?_, ?_, fun u hu => ?_,
    fun hgap => ?_, fun x => ?_⟩
  · rw [hsame.vars_eq] at hid
    exact (hadds.vars_new hid).1
  · rw [hvars.nextVar]
    exact hadds.nextVar_le
  · rw [hvars.vars]
    exact hadds.keeps.vars u hu
  · unfold Model.Gapped
    rw [hvars.vars]
    exact hass.beside.not_gapped hgap
  · rw [hfeas x, assemble_feasible hcover hgiven hr hm hass x, hsame.inputs]
    refine and_congr_right fun _ => ?_
    constructor
    · rintro ⟨hin, heval⟩
      rw [heval.outputs_eq] at hin
      exact ⟨hin, hsame.evaluates heval⟩
    · rintro ⟨hin, heval⟩
      have heval' := hsame.symm.evaluates heval
      rw [heval'.outputs_eq]
      exact ⟨hin, heval'⟩

/-! ### Formulated networks -/

/-- Admitted inputs have the width of the network. -/
theorem BuildArguments.Asks.length_eq {a : BuildArguments Rat} {r : Request Rat} {v : List Rat}
    (h : a.Asks r) (hr : r.WellFormed) (hv : a.Admits r.network v) : v.length = r.network.inputs :=
  (h.admits_iff.1 hv).1.length_eq.symm.trans hr.box_length

/-- A network that is formulated without given bounds extends the model by admitted inputs. -/
theorem formulateNetwork_extends {solver : Solver Rat} {settings : Option Settings}
    {a : BuildArguments Rat} {f : Formulation Rat} {w w' : Workspace Rat} (hsound : solver.Sound)
    (hground : (settings.getD .default).relax = true → w.model.Gapped → solver.Grounded)
    (hm : w.model.WellFormed) (hupper : a.boundsUpper = .absent) (hlower : a.boundsLower = .absent)
    (h : formulateNetwork solver settings a w = .ok f w') :
    ∃ r b, ({ a with settings := settings.getD .default } : BuildArguments Rat).Asks r ∧
      r.WellFormed ∧ f.network = r.network ∧ f.body? = some b ∧
      b.Extends r.network (a.Admits r.network) w.model w'.model := by
  obtain ⟨r, w₀, hreq, hw₀, h⟩ := formulateNetwork_eq_ok h
  have hasks := request_eq_ok hreq
  obtain ⟨hr, hgiven⟩ := hasks.of_absent hupper hlower
  have hm₀ : w₀.model.WellFormed := by
    rw [hw₀]
    exact Model.wellFormed_parameters hm _
  have hcover := coversBeside_of_request hreq hw₀ hm₀ hsound hground
  obtain ⟨hn, b, hb, hext⟩ := r.build_extends hcover hgiven hr hm₀ h
  -- the parameters are no part of what is feasible
  rw [hw₀] at hext
  exact ⟨r, b, hasks, hr, hn, hb, hext.wellFormed, hext.shaped, hext.inputs, hext.vars_new,
    hext.nextVar_le, hext.keeps, hext.not_gapped, fun x => (hext.feasible_iff x).trans (and_congr_right fun _ =>
      and_congr_left fun _ => hasks.admits_iff.symm)⟩

/-- After a network is formulated without given bounds, the feasible assignments are those of the model
before that evaluate the network on an admitted input. Every admitted input extends every
feasible assignment of the model before; its values and slacks are unique, and its binary
variables are free exactly where the affine value is zero. A relaxation that excludes the zero of a
semi-continuous variable may cut off contents that were there before, and then an optimal outcome has to mean
that the relaxed problem is feasible. -/
theorem feasible_iff_evaluates {solver : Solver Rat} {settings : Option Settings}
    {a : BuildArguments Rat} {f : Formulation Rat} {w w' : Workspace Rat} (hsound : solver.Sound)
    (hground : (settings.getD .default).relax = true → w.model.Gapped → solver.Grounded)
    (hm : w.model.WellFormed) (hupper : a.boundsUpper = .absent) (hlower : a.boundsLower = .absent)
    (h : formulateNetwork solver settings a w = .ok f w') :
    ∃ n b, a.network = .ok n ∧ f.network = n ∧ f.body? = some b ∧
      (∀ x, w'.model.Feasible x ↔
        w.model.Feasible x ∧ a.Admits n (b.inputs.map x) ∧ b.Evaluates n x) ∧
      (∀ x₀ v, w.model.Feasible x₀ → a.Admits n v → ∀ on : VarId → Bool,
        ∃ x, w'.model.Feasible x ∧ b.inputs.map x = v ∧ (∀ id ∉ b.vars, x id = x₀ id) ∧
          Along (HiddenUnit.Chosen on x) b.inputs n.hidden b.hidden) ∧
      ∀ x y, w'.model.Feasible x → w'.model.Feasible y → b.inputs.map x = b.inputs.map y →
        Along (HiddenUnit.Agrees x y) b.inputs n.hidden b.hidden ∧ b.outputs.map x = b.outputs.map y := by
  obtain ⟨r, b, hasks, hr, hn, hb, hext⟩ := formulateNetwork_extends hsound hground hm hupper hlower h
  refine ⟨r.network, b, hasks.network, hn, hb, hext.feasible_iff, fun x₀ v hx₀ hv on => ?_,
    fun x y hx hy hxy => ?_⟩
  · exact hext.exists_extension hm on hx₀ (hasks.length_eq hr hv) hv
  · exact (((hext.feasible_iff x).1 hx).2.2).agree ((hext.feasible_iff y).1 hy).2.2 hxy

theorem feasible_iff_evaluates_absolute :
    ∃ (f : Formulation Rat) (w' : Workspace Rat) (b : Body),
      formulateNetwork .ideal none (.absolute "standard") (.ofModel (.empty "model")) = .ok f w' ∧
      (∀ x, w'.model.Feasible x ↔ (Model.empty "model" : Model Rat).Feasible x ∧
        (BuildArguments.absolute "standard").Admits .absolute (b.inputs.map x) ∧
        b.Evaluates .absolute x) ∧
      ∃ x, w'.model.Feasible x ∧ b.inputs.map x = [1 / 2] := by
  have hbuild : Action.succeeds (formulateNetwork .ideal none (.absolute "standard"))
      (.ofModel (.empty "model")) = true := by decide +kernel
  obtain ⟨f, w', h⟩ := Action.exists_of_succeeds hbuild
  obtain ⟨n, b, hn, -, -, hiff, hext, -⟩ :=
    feasible_iff_evaluates exact_ideal.sound (fun _ _ => exact_ideal.grounded)
      (Model.wellFormed_empty "model") rfl rfl h
  cases hn
  have hempty : (Model.empty "model" : Model Rat).Feasible fun _ => 0 := by decide
  have hadm : (BuildArguments.absolute "standard").Admits .absolute [1 / 2] := by
    refine ⟨⟨_, _, rfl, rfl, ?_, ?_⟩, fun hmode => absurd hmode (by decide +kernel)⟩
    · exact .cons (by norm_num) .nil
    · exact .cons (by norm_num) .nil
  obtain ⟨x, hx, hin, -, -⟩ := hext _ [1 / 2] hempty hadm fun _ => false
  exact ⟨f, w', b, h, hiff, x, hx, hin⟩

end ReluMilp
