import ReluMilp.Proofs.Attainment
import ReluMilp.Proofs.Attempts
import ReluMilp.Proofs.Completeness
import ReluMilp.Proofs.Propagation
import ReluMilp.Proofs.Succeeding
import ReluMilp.Proofs.Switches

/-!
# Tightened bounds are exact

With an exact solver, bounds found by optimisation are the extremes of the affine values.

* `TableSpans` — bounds of consecutive layers that are the extremes on some vectors;
* `readings_units`, `LayerAdded.readings_eq` — what the variables of a layer read, in terms of those before;
* `Model.Front`, `layerBounds_spans`, `LayerAdded.front`, `buildHidden_spans` — hidden layers that are built
  one after the other, each bounded before its rows are there;
* `retighten_exact` — hidden layers that are bounded again on the complete model;
* `Request.build_standard`, `Request.build_output` — the bounds of a build, by its plan;
* `Network.SpannedBy` — a table whose intervals are from the smallest to the largest value on some inputs;
* `tightened_bounds_exact` — the bounds of a network that is formulated.
-/

namespace ReluMilp

open Scalar

/-! ### Tables of extremes -/

/-- The bounds of consecutive layers are the extremes of the affine values on some vectors. -/
inductive TableSpans : Set (List Rat) → List (Layer Rat) → List (List (Interval Rat)) → Prop
  | nil {V : Set (List Rat)} : TableSpans V [] []
  | cons {V : Set (List Rat)} {l : Layer Rat} {is : List (Interval Rat)} {ls : List (Layer Rat)}
      {table : List (List (Interval Rat))} :
      List.Forall₂ (fun n i => i.Spans (n.preactivation '' V)) l.neurons is →
      TableSpans (l.eval '' V) ls table → TableSpans V (l :: ls) (is :: table)

namespace TableSpans

variable {V : Set (List Rat)} {ls : List (Layer Rat)} {table : List (List (Interval Rat))}

theorem length_eq (h : TableSpans V ls table) : table.map List.length = ls.map (·.outputs) := by
  induction h with
  | nil => rfl
  | cons hl _ ih =>
    rw [List.map_cons, List.map_cons, ih, ← hl.length_eq]
    rfl

/-- Every interval of the table is from the smallest to the largest value of its neuron, where the layers
are the first of some more. -/
theorem spans_at (h : TableSpans V ls table) {all : List (Layer Rat)} (hall : ls <+: all) {p : Nat × Nat}
    {j : Interval Rat} (hj : at? table p = some j) :
    j.Spans {q | ∃ v ∈ V, at? (preactivationsFrom all v) p = some q} := by
  obtain ⟨k, i⟩ := p
  induction h generalizing k all with
  | nil => cases hj
  | @cons V l is ls table hl _ ih =>
    obtain ⟨rest, rfl⟩ := hall
    cases k with
    | zero =>
      obtain ⟨_, hk, hi⟩ := at?_eq_some.1 hj
      cases hk
      obtain ⟨n, hn, hspans⟩ : ∃ n, l.neurons[i]? = some n ∧ j.Spans (n.preactivation '' V) := by
        obtain ⟨hlen, heach⟩ := List.forall₂_iff_get.1 hl
        obtain ⟨hlt, rfl⟩ := List.getElem?_eq_some_iff.1 hi
        exact ⟨_, List.getElem?_eq_getElem (hlen ▸ hlt), heach i (hlen ▸ hlt) hlt⟩
      have hset : {q | ∃ v ∈ V, at? (preactivationsFrom (l :: ls ++ rest) v) (0, i) = some q} =
          n.preactivation '' V := by
        ext q
        refine exists_congr fun v => and_congr_right fun _ => ?_
        show (l.neurons.map (·.preactivation v))[i]? = some q ↔ _
        rw [List.getElem?_map, hn, Option.map_some, Option.some_inj]
      rw [hset]
      exact hspans
    | succ k =>
      -- the later layers read what the first one gives
      have hset : {q | ∃ v ∈ V, at? (preactivationsFrom (l :: ls ++ rest) v) (k + 1, i) = some q} =
          {q | ∃ u ∈ l.eval '' V, at? (preactivationsFrom (ls ++ rest) u) (k, i) = some q} := by
        ext q
        constructor
        · rintro ⟨v, hv, hq⟩
          exact ⟨l.eval v, ⟨v, hv, rfl⟩, hq⟩
        · rintro ⟨_, ⟨v, hv, rfl⟩, hq⟩
          exact ⟨v, hv, hq⟩
      rw [hset]
      exact ih (List.prefix_append ls rest) k hj

end TableSpans

/-! ### What the variables of a layer read -/

section Readings

variable {m m' : Model Rat} {prev : List VarId} {l : Layer Rat} {us : List HiddenUnit}
  {is : List (Interval Rat)}

/-- The values of a hidden layer that stands in a model are those of the layer on what it reads. -/
theorem readings_units (hm : m.WellFormed) (hrelu : l.activation = .relu)
    (h : Forall₃ (HiddenUnit.Stands m prev) l.neurons us is) :
    m.readings (us.map (·.x)) = l.eval '' m.readings prev := by
  have heval : ∀ x ∈ {x | m.Feasible x}, (us.map (·.x)).map x = l.eval (prev.map x) := by
    intro x hx
    have hbig := (satisfiedOn_layer h hm).1 (Model.Feasible.satisfiedOn hx _ _)
    exact map_value_eq hrelu (hbig.forall₂ fun _ _ _ hb => BigM.rectifies hb)
  unfold Model.readings
  rw [Set.image_image]
  exact Set.image_congr heval

/-- A hidden layer with bounds of its affine values leaves the variables before it what they read. -/
theorem LayerAdded.readings_eq (h : LayerAdded m m' prev l us is) (hm : m.WellFormed)
    (hprev : ∀ id ∈ prev, id < m.nextVar) (hhas : ∀ x, m.Feasible x →
      List.Forall₂ (fun n i => i.Has (n.preactivation (prev.map x))) l.neurons is) :
    m'.readings prev = m.readings prev := by
  have hnew : ∀ id < m.nextVar, id ∉ Body.unitVars us :=
    fun id hid hmem => absurd hid (not_lt.2 (h.adds.vars_new hmem).1)
  apply Set.Subset.antisymm
  · rintro _ ⟨x, hx, rfl⟩
    exact ⟨x, ((h.feasible_iff hm hhas x).1 hx).1, rfl⟩
  · rintro _ ⟨x, hx, rfl⟩
    -- the new variables take the values of the rectifier
    obtain ⟨y, hchosen, hoff⟩ := exists_layer h.stands.length_middle h.adds.vars_nodup
      (fun id hid => hnew id (hprev id hid)) (fun _ => false) x
    have hsame : ∀ id < m.nextVar, y id = x id := fun id hid => hoff id (hnew id hid)
    have hy : m.Feasible y := Model.Feasible.congr hx hm hsame
    refine ⟨y, (h.feasible_iff hm hhas y).2 ⟨hy, hchosen.imp fun _ _ hc => hc.rectifies⟩, ?_⟩
    exact List.map_congr_left fun id hid => hsame id (hprev id hid)

theorem HiddenUnit.Stands.kind_plain {n : Neuron Rat} {u : HiddenUnit} {i : Interval Rat}
    (h : u.Stands m prev n i) (hm : m.WellFormed) {v : Variable Rat} (hv : v ∈ m.vars)
    (hid : v.id ∈ u.vars) : v.kind = .continuous ∨ v.kind = .binary := by
  rcases List.mem_cons.1 hid with hid | hid
  · obtain ⟨_, hx⟩ := h.value
    rw [hm.eq_of_var_id hv hx hid]
    exact .inl rfl
  rcases List.mem_pair.1 hid with hid | hid
  · obtain ⟨_, hs⟩ := h.slack
    rw [hm.eq_of_var_id hv hs hid]
    exact .inl rfl
  · obtain ⟨_, hz⟩ := h.switch
    rw [hm.eq_of_var_id hv hz hid]
    exact .inr rfl

theorem FreeStand.kind_plain {ids : List VarId} (h : FreeStand m ids) (hm : m.WellFormed) {v : Variable Rat}
    (hv : v ∈ m.vars) (hid : v.id ∈ ids) : v.kind = .continuous ∨ v.kind = .binary := by
  obtain ⟨_, hs⟩ := h v.id hid
  rw [hm.eq_of_var_id hv hs rfl]
  exact .inl rfl

theorem LayerAdded.plain (h : LayerAdded m m' prev l us is) (hm : m.WellFormed) (hp : m.Plain) :
    m'.Plain := by
  intro v hv
  rcases h.adds.mem_vars hv with hold | hnew
  · exact hp v hold
  · obtain ⟨u, hu, hid⟩ := mem_unitVars_iff.1 hnew
    obtain ⟨n, i, hst⟩ := h.stands.exists_of_mem hu
    exact hst.kind_plain (h.adds.wellFormed hm) hv hid

end Readings

/-! ### Layers that are bounded before their rows are there -/

/-- Where a build stands before its next layer: a model, the variables that the layer reads, and their
bounds. -/
structure Model.Front (m : Model Rat) (prev : List VarId) (rectified : Bool)
    (before : List (Interval Rat)) : Prop where
  wellFormed : m.WellFormed
  plain : m.Plain
  prev_lt : ∀ id ∈ prev, id < m.nextVar
  encloses : ∀ v ∈ m.readings prev, Encloses rectified before v

section Front

variable {solver : Solver Rat} {r : Request Rat} {prev : List VarId} {rectified : Bool}
  {before is : List (Interval Rat)} {w w' : Workspace Rat}

/-- The bounds of the next layer are the extremes of its affine values. -/
theorem layerBounds_spans {k : Nat} {l : Layer Rat} (hs : solver.Exact) (hgiven : r.given = none)
    (hplan : r.plan = .standard) (hrelax : r.settings.relax = false)
    (hf : w.model.Front prev rectified before) (hne : (w.model.readings prev).Nonempty)
    (h : layerBounds solver r k prev rectified before l w = .ok is w') :
    List.Forall₂ (fun n i => i.Spans (n.preactivation '' w.model.readings prev)) l.neurons is := by
  unfold layerBounds at h
  rw [hgiven, hplan] at h
  obtain ⟨js, v, hstep, h⟩ := Action.bind_eq_ok.1 h
  obtain ⟨hjs, rfl⟩ := Action.ofExcept_eq_ok.1 hstep
  obtain ⟨-, rfl⟩ := Layer.propagate_eq_ok hjs
  obtain ⟨-, os, rfl, hos⟩ := tightenLayer_eq_ok h
  rw [hrelax] at hos
  have hknown : List.Forall₂ (fun n i => ∀ v ∈ w.model.readings prev, i.Has (n.preactivation v)) l.neurons
      (l.intervals rectified before) := by
    unfold Layer.intervals
    rw [List.forall₂_map_right_iff, List.forall₂_same]
    exact fun n _ v hv => n.interval_has (hf.encloses v hv)
  exact (improveAll_exact hs hf.wellFormed hf.plain hf.prev_lt hknown hos).1 hne

/-- The next layer, with bounds of its affine values, is where the build then stands. -/
theorem LayerAdded.front {m m' : Model Rat} {l : Layer Rat} {us : List HiddenUnit}
    (h : LayerAdded m m' prev l us is) (hf : m.Front prev rectified before) (hrelu : l.activation = .relu)
    (hhas : ∀ x, m.Feasible x →
      List.Forall₂ (fun n i => i.Has (n.preactivation (prev.map x))) l.neurons is) :
    m'.Front (us.map (·.x)) true is ∧ m'.readings (us.map (·.x)) = l.eval '' m.readings prev := by
  have hm' := h.adds.wellFormed hf.wellFormed
  have hreadings : m'.readings (us.map (·.x)) = l.eval '' m.readings prev := by
    rw [readings_units hm' hrelu h.stands, h.readings_eq hf.wellFormed hf.prev_lt hhas]
  refine ⟨⟨hm', h.plain hf.wellFormed hf.plain, fun id hid => ?_, ?_⟩, hreadings⟩
  · exact (h.adds.vars_new (mem_xs_unitVars hid)).2
  · rw [hreadings]
    rintro _ ⟨_, ⟨x, hx, rfl⟩, rfl⟩
    refine Encloses.next hrelu ?_
    unfold Layer.preactivations
    rw [List.forall₂_map_right_iff]
    exact (hhas x hx).flip

/-- Hidden layers one after the other: whatever spans the layers after them, its table completes theirs. -/
theorem buildHidden_spans {i : Nat} {ls : List (Layer Rat)} {stem : Stem Rat} (hs : solver.Exact)
    (hgiven : r.given = none) (hplan : r.plan = .standard) (hrelax : r.settings.relax = false)
    (hrelu : ∀ l ∈ ls, l.activation = .relu) (hf : w.model.Front prev rectified before)
    (hne : (w.model.readings prev).Nonempty)
    (h : buildHidden solver r (i + 1) prev rectified before ls w = .ok stem w') :
    w'.model.Front stem.last stem.rectified stem.bounds ∧ (w'.model.readings stem.last).Nonempty ∧
      ∀ ls' table, TableSpans (w'.model.readings stem.last) ls' table →
        TableSpans (w.model.readings prev) (ls ++ ls') (stem.table ++ table) := by
  have hfits : ∀ i ls, r.Fits i ls := by
    intro i ls table ht
    rw [hgiven] at ht
    cases ht
  induction ls generalizing i prev rectified before stem w with
  | nil =>
    obtain ⟨rfl, rfl⟩ := Action.pure_eq_ok.1 h
    exact ⟨hf, hne, fun _ _ ht => ht⟩
  | cons l ls ih =>
    obtain ⟨is, us, rest, w₁, w₂, his, hus, hrest, rfl⟩ := buildHidden_cons h
    rw [List.forall_mem_cons] at hrelu
    have hm₁ := (layerBounds_eq_ok his).1
    have hspans := layerBounds_spans hs hgiven hplan hrelax hf hne his
    have hhas : ∀ x, w.model.Feasible x →
        List.Forall₂ (fun n i => i.Has (n.preactivation (prev.map x))) l.neurons is :=
      fun x hx => layerBounds_has (hs.sound.covers_of_unrelaxed hrelax) hgiven his (hf.encloses _ ⟨x, hx, rfl⟩) hx
    have hprev₁ : ∀ id ∈ prev, id < w₁.model.nextVar := by
      rw [hm₁]
      exact hf.prev_lt
    have hlayer := addHidden_added hprev₁ (length_layerBounds (hfits i (l :: ls)) his) hus
    rw [hm₁] at hlayer
    obtain ⟨hf₂, hreadings⟩ := hlayer.front hf hrelu.1 hhas
    have hne₂ : (w₂.model.readings (us.map (·.x))).Nonempty := by
      rw [hreadings]
      exact hne.image _
    obtain ⟨hf', hne', hlater⟩ := ih hrelu.2 hf₂ hne₂ hrest
    refine ⟨hf', hne', fun ls' table ht => .cons hspans ?_⟩
    have htail := hlater ls' table ht
    rw [hreadings] at htail
    exact htail

end Front

/-! ### Layers that are bounded again -/

theorem forall₂_forall {β γ δ : Type} {R : δ → β → γ → Prop} {V : Set δ} {bs : List β} {cs : List γ}
    (hlen : bs.length = cs.length) (h : ∀ v ∈ V, List.Forall₂ (R v) bs cs) :
    List.Forall₂ (fun b c => ∀ v ∈ V, R v b c) bs cs :=
  List.forall₂_iff_zip.2 ⟨hlen, fun hmem v hv => (List.forall₂_iff_zip.1 (h v hv)).2 hmem⟩

/-- A network that is all of a model has no variable that has to be whole beyond zero and one. -/
theorem Body.Stands.plain {m : Model Rat} {n : Network Rat} {b : Body} {table : List (List (Interval Rat))}
    (hb : b.Stands m n table) (hm : m.WellFormed) (hall : ∀ v ∈ m.vars, v.id ∈ b.vars) : m.Plain := by
  intro v hv
  rcases List.mem_append.1 (hall v hv) with hid | hout
  · rcases List.mem_append.1 hid with hin | hunit
    · exact hb.inputs.kind_plain hm hv hin
    · obtain ⟨us, hus, hid⟩ := List.mem_flatMap.1 hunit
      obtain ⟨u, hu, hid⟩ := mem_unitVars_iff.1 hid
      obtain ⟨p, n', i, hst⟩ := hb.hidden.exists_of_mem (List.mem_flatten.2 ⟨us, hus, hu⟩)
      exact hst.kind_plain hm hv hid
  · exact hb.outputs.kind_plain hm hv hout

/-- Hidden layers that are bounded again: the bounds are the extremes on what the model admits, and those
that were known if it admits nothing. -/
theorem retighten_exact {solver : Solver Rat} {r : Request Rat} {n : Network Rat} {b : Body} {k : Nat}
    {prev : List VarId} {lpre ls : List (Layer Rat)} {pre uss uss' : List (List HiddenUnit)}
    {tpre iss iss' : List (List (Interval Rat))} {w w' : Workspace Rat} (hs : solver.Exact)
    (hrelax : r.settings.relax = false) (hn : n.hidden = lpre ++ ls) (hl : lpre.length = pre.length)
    (ht : tpre.length = pre.length) (hprev : lastVars b.inputs pre = prev) (hm : w.model.WellFormed)
    (hp : w.model.Plain) (hlt : ∀ id ∈ prev, id < w.model.nextVar)
    (hb : (b.withHidden (pre ++ uss)).Stands w.model n (tpre ++ iss))
    (hknown : ∀ v ∈ w.model.readings prev,
      List.Forall₂ (List.Forall₂ Interval.Has) iss (preactivationsFrom ls v))
    (h : retighten solver r k prev ls uss iss w = .ok (uss', iss') w') :
    ((w.model.readings prev).Nonempty → TableSpans (w.model.readings prev) ls iss') ∧
      (w.model.readings prev = ∅ → iss' = iss) := by
  induction ls generalizing k prev lpre pre uss uss' tpre iss iss' w with
  | nil =>
    cases hb.rest hn hl ht
    obtain ⟨heq, rfl⟩ := Action.pure_eq_ok.1 h
    cases heq
    exact ⟨fun _ => .nil, fun _ => rfl⟩
  | cons l ls ih =>
    cases hb.rest hn hl ht with
    | @cons _ _ us is _ uss iss _ _ =>
    obtain ⟨os, us', uss₂, iss₂, w₂, rfl, rfl, hlayer, hos, hvars, hsame, -, hm₂, hb₂, hfeas₂,
        hlater⟩ :=
      retighten_cons hn hl ht hprev hm hb h
    rw [hrelax] at hos
    have hrelu : l.activation = .relu := by
      refine n.hidden_relu l ?_
      rw [hn]
      exact List.mem_append_right _ List.mem_cons_self
    have hxs : us'.map (·.x) = us.map (·.x) := map_x_of_map_vars hvars
    -- the exchange leaves the model what it admits
    have hreadings : w₂.model.readings (us'.map (·.x)) = l.eval '' w.model.readings prev := by
      rw [hxs, ← readings_units hm hrelu hlayer]
      unfold Model.readings
      simp only [hfeas₂ (hs.sound.covers_of_unrelaxed hrelax)]
    have hfirst : List.Forall₂ (fun n i => ∀ v ∈ w.model.readings prev, i.Has (n.preactivation v))
        l.neurons is := by
      refine forall₂_forall hlayer.length_right.symm fun v hv => ?_
      have hhas := (List.forall₂_cons.1 (hknown v hv)).1
      unfold Layer.preactivations at hhas
      rw [List.forall₂_map_right_iff] at hhas
      exact hhas.flip
    have hp₂ : w₂.model.Plain := by
      unfold Model.Plain
      rw [hsame.vars]
      exact hp
    have hlt₂ : ∀ id ∈ us'.map (·.x), id < w₂.model.nextVar := by
      intro id hid
      rw [hxs] at hid
      obtain ⟨u, hu, rfl⟩ := List.mem_map.1 hid
      obtain ⟨n', i, hst⟩ := hlayer.exists_of_mem hu
      rw [hsame.nextVar]
      exact hst.vars_lt hm List.mem_cons_self
    have hknown₂ : ∀ v ∈ w₂.model.readings (us'.map (·.x)),
        List.Forall₂ (List.Forall₂ Interval.Has) iss (preactivationsFrom ls v) := by
      rw [hreadings]
      rintro _ ⟨v, hv, rfl⟩
      exact (List.forall₂_cons.1 (hknown v hv)).2
    obtain ⟨hspans, hstay⟩ := improveAll_exact hs hm hp hlt hfirst hos
    rw [List.append_cons lpre] at hn
    obtain ⟨hspans₂, hstay₂⟩ := ih hn (length_snoc hl l us') (length_snoc ht _ us')
      (lastVars_append_singleton b.inputs pre us') hm₂ hp₂ hlt₂ hb₂ hknown₂ hlater
    rw [hreadings] at hspans₂ hstay₂
    constructor
    · exact fun hne => .cons (hspans hne) (hspans₂ (hne.image _))
    · intro hempty
      rw [hstay hempty, hstay₂ (by rw [hempty, Set.image_empty])]

/-! ### Builds -/

section Builds

variable {solver : Solver Rat} {r : Request Rat} {s : Assembled Rat} {stem : Stem Rat}
  {w w₁ w₂ w' : Workspace Rat}

/-- Before the first hidden layer the inputs read the box. -/
theorem Request.Assembles.front_inputs (h : r.Assembles solver s stem w w₁ w₂ w') (hr : r.WellFormed)
    (hvars : w.model.vars = []) (hrows : w.model.rows = []) :
    w₁.model.Front s.body.inputs false r.box ∧
      w₁.model.readings s.body.inputs = {v | List.Forall₂ Interval.Has r.box v} := by
  have hm := Model.wellFormed_of_nil hvars hrows
  have hfeas : ∀ x, w₁.model.Feasible x ↔ List.Forall₂ Interval.Has r.box (s.body.inputs.map x) := by
    intro x
    rw [h.feasible_boxed hr]
    exact and_iff_right (Model.feasible_of_nil hvars hrows x)
  have hin : s.body.inputs.length = r.box.length := by
    rw [h.inputs, List.length_range', hr.box_length]
  have hreadings : w₁.model.readings s.body.inputs = {v | List.Forall₂ Interval.Has r.box v} := by
    apply Set.Subset.antisymm
    · rintro _ ⟨x, hx, rfl⟩
      exact (hfeas x).1 hx
    · intro v hv
      obtain ⟨x, rfl, -⟩ := exists_assignment h.adds_inputs.vars_nodup
        (hv.length_eq.symm.trans hin.symm) fun _ => 0
      exact ⟨x, (hfeas x).2 hv, rfl⟩
  refine ⟨⟨h.adds_inputs.wellFormed hm, fun v hv => ?_, fun id hid => ?_, ?_⟩, hreadings⟩
  · rcases h.adds_inputs.mem_vars hv with hold | hnew
    · rw [hvars] at hold
      exact absurd hold List.not_mem_nil
    · obtain ⟨t, ht⟩ := h.boxed
      have hfree := free_withRows w.model t r.network.inputs (r.boxDrafts s.body.inputs)
      rw [← ht, ← h.inputs] at hfree
      exact hfree.kind_plain (h.adds_inputs.wellFormed hm) hv hnew
  · exact (h.adds_inputs.vars_new hid).2
  · rw [hreadings]
    exact fun v hv => hv

/-- After all rows the inputs read what lies in the box and has its output in the range. -/
theorem Request.Assembles.readings_inputs (h : r.Assembles solver s stem w w₁ w₂ w') (hs : solver.Sound)
    (hgiven : r.given = none) (hr : r.WellFormed) (hvars : w.model.vars = []) (hrows : w.model.rows = []) :
    w'.model.readings s.body.inputs = {v | List.Forall₂ Interval.Has r.box v ∧
      ∀ range, r.plan = .output range → List.Forall₂ Interval.Has range (r.network.eval v)} := by
  have hm := Model.wellFormed_of_nil hvars hrows
  have hcover : solver.CoversBeside r.settings.relax w.model :=
    hs.coversBeside hm fun _ hgapped => absurd hgapped (Model.not_gapped_of_nil hvars)
  have hfeas := assemble_feasible hcover hgiven hr hm h
  apply Set.Subset.antisymm
  · rintro _ ⟨x, hx, rfl⟩
    obtain ⟨-, hin, heval⟩ := (hfeas x).1 hx
    rw [heval.outputs_eq] at hin
    exact hin
  · rintro v ⟨hbox, hrange⟩
    have hlen : v.length = r.network.inputs := hbox.length_eq.symm.trans hr.box_length
    obtain ⟨x, heval, -, rfl, -⟩ := exists_evaluation (h.stands hr).shaped hlen (fun _ => false) fun _ => 0
    refine ⟨x, (hfeas x).2 ⟨Model.feasible_of_nil hvars hrows x, ⟨hbox, ?_⟩, heval⟩, rfl⟩
    rw [heval.outputs_eq]
    exact hrange

/-- An assembly adds no variable that has to be whole beyond zero and one. -/
theorem Request.Assembles.plain (h : r.Assembles solver s stem w w₁ w₂ w') (hr : r.WellFormed)
    (hvars : w.model.vars = []) (hrows : w.model.rows = []) : w'.model.Plain := by
  have hadds := h.adds hr
  refine (h.stands hr).plain (hadds.wellFormed (Model.wellFormed_of_nil hvars hrows)) fun u hu => ?_
  rcases hadds.mem_vars hu with hold | hnew
  · rw [hvars] at hold
    exact absurd hold List.not_mem_nil
  · exact hnew

/-- Without optimisation, the bounds of the hidden layers enclose the affine values of whatever lies in the
box. -/
theorem Request.Assembles.table_has (h : r.Assembles solver s stem w w₁ w₂ w') (hgiven : r.given = none)
    (hplan : r.plan ≠ .standard) {v : List Rat} (hv : List.Forall₂ Interval.Has r.box v) :
    List.Forall₂ (List.Forall₂ Interval.Has) s.table (preactivationsFrom r.network.hidden v) := by
  have hbox : Encloses false r.box v := hv
  have htable : intervalsFrom false r.box r.network.hidden = s.table := by
    have hnil := buildHidden_intervals hgiven (fun hstandard => absurd hstandard hplan) h.hidden []
    rw [List.append_nil] at hnil
    rw [hnil, h.table]
    exact List.append_nil _
  rw [← htable]
  exact intervalsFrom_has (fun l hl => r.network.hidden_relu l (List.mem_of_mem_dropLast hl)) hbox

/-- Every layer of a build is bounded by the extremes over the box. -/
theorem Request.build_standard {f : Formulation Rat} (hs : solver.Exact) (hrelax : r.settings.relax = false)
    (hgiven : r.given = none) (hplan : r.plan = .standard) (hr : r.WellFormed) (hvars : w.model.vars = [])
    (hrows : w.model.rows = []) (hbox : ∃ v, List.Forall₂ Interval.Has r.box v)
    (h : r.build solver w = .ok f w') :
    TableSpans {v | List.Forall₂ Interval.Has r.box v} r.network.layers f.table := by
  rw [r.build_eq] at h
  obtain ⟨s, w₃, hass, h⟩ := Action.bind_eq_ok.1 h
  obtain ⟨stem, w₁, w₂, hass⟩ := assemble_eq_ok hass
  unfold Request.finish at h
  rw [hplan] at h
  obtain ⟨rfl, rfl⟩ := Action.pure_eq_ok.1 h
  obtain ⟨hf, hreadings⟩ := hass.front_inputs hr hvars hrows
  have hne : (w₁.model.readings s.body.inputs).Nonempty := by
    rw [hreadings]
    exact hbox
  obtain ⟨hf₂, hne₂, hspans⟩ :=
    buildHidden_spans hs hgiven hplan hrelax r.network.hidden_relu hf hne hass.hidden
  obtain ⟨v, hlast⟩ := hass.bounds
  have hout := layerBounds_spans hs hgiven hplan hrelax hf₂ hne₂ hlast
  have hall := hspans [r.network.output] [s.bounds] (.cons hout .nil)
  rw [hreadings, ← hass.table] at hall
  exact hall

/-- With bounds on the output, the hidden layers are bounded by the extremes over what lies in the box and
has its output in the range; by the intervals that go through the layers if there is none. -/
theorem Request.build_output {f : Formulation Rat} {range : List (Interval Rat)} (hs : solver.Exact)
    (hrelax : r.settings.relax = false) (hgiven : r.given = none) (hplan : r.plan = .output range)
    (hr : r.WellFormed) (hvars : w.model.vars = []) (hrows : w.model.rows = [])
    (h : r.build solver w = .ok f w') :
    ∃ table, f.table = table ++ [range] ∧ table.map List.length = r.network.hidden.map (·.outputs) ∧
      ((∃ v, List.Forall₂ Interval.Has r.box v ∧ List.Forall₂ Interval.Has range (r.network.eval v)) →
        TableSpans {v | List.Forall₂ Interval.Has r.box v ∧
          List.Forall₂ Interval.Has range (r.network.eval v)} r.network.hidden table) ∧
      ((¬∃ v, List.Forall₂ Interval.Has r.box v ∧ List.Forall₂ Interval.Has range (r.network.eval v)) →
        ∃ last, r.network.intervals r.box = table ++ [last]) := by
  have hm := Model.wellFormed_of_nil hvars hrows
  rw [r.build_eq] at h
  obtain ⟨s, w₃, hass, h⟩ := Action.bind_eq_ok.1 h
  obtain ⟨stem, w₁, w₂, hass⟩ := assemble_eq_ok hass
  unfold Request.finish at h
  rw [hplan] at h
  obtain ⟨⟨units, table⟩, v, hre, h⟩ := Action.bind_eq_ok.1 h
  obtain ⟨rfl, rfl⟩ := Action.pure_eq_ok.1 h
  have hm₃ := (hass.adds hr).wellFormed hm
  have hstands := hass.stands hr
  have hstart : (s.body.withHidden ([] ++ s.body.hidden)).Stands w₃.model r.network ([] ++ s.table) :=
    hstands
  have hn : r.network.hidden = [] ++ r.network.hidden := rfl
  have hprev : lastVars s.body.inputs [] = s.body.inputs := rfl
  have hnotstandard : r.plan ≠ .standard := by
    rw [hplan]
    exact nofun
  have hlt : ∀ id ∈ s.body.inputs, id < w₃.model.nextVar := by
    intro id hid
    obtain ⟨_, hv⟩ := hstands.inputs id hid
    exact hm₃.vars_lt _ hv
  have hreadings : w₃.model.readings s.body.inputs = {v | List.Forall₂ Interval.Has r.box v ∧
      List.Forall₂ Interval.Has range (r.network.eval v)} := by
    rw [hass.readings_inputs hs.sound hgiven hr hvars hrows, hplan]
    simp only [Plan.output.injEq, forall_eq']
  have hknown : ∀ v ∈ w₃.model.readings s.body.inputs,
      List.Forall₂ (List.Forall₂ Interval.Has) s.table (preactivationsFrom r.network.hidden v) := by
    rw [hreadings]
    exact fun v hv => hass.table_has hgiven hnotstandard hv.1
  obtain ⟨hspans, hstay⟩ := retighten_exact hs hrelax hn rfl rfl hprev hm₃ (hass.plain hr hvars hrows) hlt
    hstart hknown hre
  obtain ⟨-, hb⟩ := retighten_stands hn rfl rfl rfl hm₃ hstart hre
  rw [hreadings] at hspans hstay
  refine ⟨table, rfl, hb.hidden.length_eq.2, hspans, fun hnone => ?_⟩
  rw [hstay (Set.not_nonempty_iff_eq_empty.1 hnone), hass.table]
  exact ⟨_, buildHidden_intervals hgiven (fun hstandard => absurd hstandard hnotstandard) hass.hidden
    [r.network.output]⟩

end Builds

/-! ### Formulated networks -/

/-- Every interval of a table is from the smallest to the largest affine value that its neuron takes on some
inputs. -/
def Network.SpannedBy (n : Network Rat) (inputs : Set (List Rat)) (table : List (List (Interval Rat))) : Prop :=
  ∀ p i, at? table p = some i → i.Spans {q | ∃ v ∈ inputs, at? (n.preactivations v) p = some q}

section Formulated

variable {solver : Solver Rat} {a : BuildArguments Rat} {r : Request Rat} {f : Formulation Rat}
  {w w' : Workspace Rat}

theorem BuildArguments.Asks.box_iff (h : a.Asks r) {v : List Rat} :
    List.Forall₂ Interval.Has r.box v ↔ LiesBetween a.inputUpper a.inputLower v := by
  obtain ⟨us, ls, hus, hls, hbox, -⟩ := h.box.bounds
  rw [liesBetween_iff hus hls, hbox]

theorem BuildArguments.Asks.range_iff (h : a.Asks r) {range : List (Interval Rat)}
    (hplan : r.plan = .output range) {v : List Rat} :
    List.Forall₂ Interval.Has r.box v ∧ List.Forall₂ Interval.Has range (r.network.eval v) ↔
      a.Admits r.network v := by
  rw [h.admits_iff, hplan]
  simp only [Plan.output.injEq, forall_eq']

/-- In standard mode every layer is bounded by the extremes over the box. -/
theorem BuildArguments.Asks.standard_exact (hasks : a.Asks r) (hs : solver.Exact)
    (hrelax : r.settings.relax = false) (hgiven : r.given = none) (hr : r.WellFormed)
    (hvars : w.model.vars = []) (hrows : w.model.rows = []) (hmode : Mode.ofValue a.mode = .ok .standard)
    (h : r.build solver w = .ok f w') :
    f.table.map List.length = r.network.neuronCount ∧
      r.network.SpannedBy {v | LiesBetween a.inputUpper a.inputLower v} f.table := by
  have hspans := Request.build_standard hs hrelax hgiven (hasks.plan_standard hmode) hr hvars hrows
    hasks.exists_mem_box h
  simp only [hasks.box_iff] at hspans
  exact ⟨hspans.length_eq, fun p i hi => hspans.spans_at List.prefix_rfl hi⟩

/-- With bounds on the output, the hidden layers are bounded by the extremes over the admitted inputs, or by
intervals from the box if there is none. -/
theorem BuildArguments.Asks.output_exact (hasks : a.Asks r) (hs : solver.Exact)
    (hrelax : r.settings.relax = false) (hgiven : r.given = none) (hr : r.WellFormed)
    (hvars : w.model.vars = []) (hrows : w.model.rows = []) (hmode : Mode.ofValue a.mode = .ok .output)
    (h : r.build solver w = .ok f w') :
    ∃ table range, f.table = table ++ [range] ∧ a.AsksRange r.network.outputs range ∧
      f.table.map List.length = r.network.neuronCount ∧
      ((∃ v, a.Admits r.network v) → r.network.SpannedBy {v | a.Admits r.network v} table) ∧
      ((¬∃ v, a.Admits r.network v) → ∃ last, r.network.intervals r.box = table ++ [last]) := by
  obtain ⟨range, hplan⟩ := hasks.plan_output hmode
  obtain ⟨table, htable, hwidths, hspans, hstay⟩ :=
    Request.build_output hs hrelax hgiven hplan hr hvars hrows h
  simp only [hasks.range_iff hplan] at hspans hstay
  refine ⟨table, range, htable, hasks.range range hplan, ?_, fun hadmits p i hi => ?_, hstay⟩
  · have hlast : range.length = r.network.output.outputs := hr.range_length range hplan
    rw [htable, List.map_append, hwidths, List.map_singleton, hlast]
    unfold Network.neuronCount Network.layers
    rw [List.map_append, List.map_singleton]
  · exact (hspans hadmits).spans_at (List.prefix_append _ _) hi

end Formulated

/-- Tightened bounds are exact, on a model without anything else, without relaxation and with an exact
solver, whatever the jobs. In standard mode every layer is bounded by the extremes over the box. With
bounds on the output, which are those of the last layer, the hidden ones are bounded by the extremes over
the inputs in the box with an output in the range; if there is none, by the intervals that go through
the network. Such a network is formulated whenever its request is accepted, the threads and the jobs are, and
all names fit. -/
theorem tightened_bounds_exact {solver : Solver Rat} {settings : Option Settings} {a : BuildArguments Rat}
    {w : Workspace Rat} (hs : solver.Exact) (hrelax : (settings.getD .default).relax = false)
    (hvars : w.model.vars = []) (hrows : w.model.rows = []) (hupper : a.boundsUpper = .absent)
    (hlower : a.boundsLower = .absent) :
    (∀ f w', formulateNetwork solver settings a w = .ok f w' →
      ∃ n us ls, a.network = .ok n ∧ f.network = n ∧ Reads a.inputUpper n.inputs us ∧
        Reads a.inputLower n.inputs ls ∧
        (Mode.ofValue a.mode = .ok .standard → f.table.map List.length = n.neuronCount ∧
          n.SpannedBy {v | LiesBetween a.inputUpper a.inputLower v} f.table) ∧
        (Mode.ofValue a.mode = .ok .output → ∃ table ous ols,
          Reads a.outputUpper n.outputs ous ∧ Reads a.outputLower n.outputs ols ∧
          f.table = table ++ [Interval.ofLists ous ols] ∧ f.table.map List.length = n.neuronCount ∧
          ((∃ v, a.Admits n v) → n.SpannedBy {v | a.Admits n v} table) ∧
          ((¬∃ v, a.Admits n v) → ∃ last, n.intervals (Interval.ofLists us ls) = table ++ [last]))) ∧
    (∀ r, ({ a with settings := settings.getD .default } : BuildArguments Rat).request = .ok r →
      (settings.getD .default).Accepted → (∀ fault, Jobs.ofValue a.jobs ≠ .none fault) → r.NamesFit →
      ∃ f w', formulateNetwork solver settings a w = .ok f w') := by
  constructor
  · intro f w' h
    obtain ⟨r, w₀, hreq, hw₀, h⟩ := formulateNetwork_eq_ok h
    have hasks := request_eq_ok hreq
    obtain ⟨hr, hgiven⟩ := hasks.of_absent hupper hlower
    have hsettings : r.settings = settings.getD .default := (request_settings hreq).1
    rw [← hsettings] at hrelax
    have hvars₀ : w₀.model.vars = [] := by
      rw [hw₀]
      exact hvars
    have hrows₀ : w₀.model.rows = [] := by
      rw [hw₀]
      exact hrows
    obtain ⟨us, ls, hus, hls, hbox, -⟩ := hasks.box.bounds
    obtain ⟨hnetwork, -⟩ := Request.build_stands hr (Model.wellFormed_of_nil hvars₀ hrows₀) h
    refine ⟨r.network, us, ls, hasks.network, hnetwork, hus, hls, fun hmode => ?_, fun hmode => ?_⟩
    · exact hasks.standard_exact hs hrelax hgiven hr hvars₀ hrows₀ hmode h
    · obtain ⟨table, range, htable, ⟨ous, ols, hous, hols, rfl⟩, hwidths, hspans, hstay⟩ :=
        hasks.output_exact hs hrelax hgiven hr hvars₀ hrows₀ hmode h
      rw [hbox] at hstay
      exact ⟨table, ous, ols, hous, hols, htable, hwidths, hspans, hstay⟩
  · intro r hreq hset hjobs hfit
    obtain ⟨hsettings, hr⟩ := request_settings hreq
    have hsolvable : r.Solvable solver := by
      refine ⟨hs.total, ?_, ?_⟩
      · rw [hsettings]
        exact hset
      · rw [hr]
        exact hjobs
    exact formulateNetwork_succeeds hreq (BuildArguments.faithful_of_absent hupper hlower) hsolvable hfit
      (Model.wellFormed_of_nil hvars hrows)

/-- The affine values of the absolute value, whose second layer gives it. -/
theorem preactivations_absolute (t : Rat) : Network.absolute.preactivations [t] = [[t, -t], [|t|]] := by
  have habs : relu t + relu (-t) = |t| := by
    rw [relu_eq_max, relu_eq_max]
    exact max_zero_add_max_neg_zero_eq_abs_self t
  have hfirst : (1 : Rat) * t + 0 + 0 = t := by ring
  have hsecond : (-1 : Rat) * t + 0 + 0 = -t := by ring
  have hlast : (1 : Rat) * relu t + (1 * relu (-t) + 0) + 0 = |t| := by
    rw [← habs]
    ring
  show [[(1 : Rat) * t + 0 + 0, -1 * t + 0 + 0],
    [(1 : Rat) * relu (1 * t + 0 + 0) + (1 * relu (-1 * t + 0 + 0) + 0) + 0]] = _
  rw [hfirst, hsecond, hlast]

theorem liesBetween_single {u l : Rat} {v : List Rat} :
    LiesBetween (some (.ok (.ofVector [u]))) (some (.ok (.ofVector [l]))) v ↔ ∃ t, v = [t] ∧ l ≤ t ∧ t ≤ u := by
  constructor
  · rintro ⟨_, _, hu, hl, hlv, hvu⟩
    cases hu
    cases hl
    cases hlv with
    | @cons _ t _ _ hlt hnil =>
    cases hnil
    exact ⟨t, rfl, hlt, (List.forall₂_cons.1 hvu).1⟩
  · rintro ⟨t, rfl, hlt, htu⟩
    exact ⟨_, _, rfl, rfl, .cons hlt .nil, .cons htu .nil⟩

theorem spans_absolute {i : Interval Rat}
    (h : i.Spans {q | ∃ v, LiesBetween (some (.ok (.ofVector [1]))) (some (.ok (.ofVector [-1]))) v ∧
      at? (Network.absolute.preactivations v) (1, 0) = some q}) : i = ⟨1, 0⟩ := by
  have hset : {q | ∃ v, LiesBetween (some (.ok (.ofVector [1]))) (some (.ok (.ofVector [-1]))) v ∧
      at? (Network.absolute.preactivations v) (1, 0) = some q} = {q | ∃ t : Rat, |t| ≤ 1 ∧ |t| = q} := by
    ext q
    have hvalue : ∀ t, at? (Network.absolute.preactivations [t]) (1, 0) = some q ↔ |t| = q := by
      intro t
      rw [preactivations_absolute]
      exact Option.some_inj
    constructor
    · rintro ⟨v, hv, hq⟩
      obtain ⟨t, rfl, ht⟩ := liesBetween_single.1 hv
      exact ⟨t, abs_le.2 ht, (hvalue t).1 hq⟩
    · rintro ⟨t, ht, hq⟩
      exact ⟨[t], liesBetween_single.2 ⟨t, rfl, abs_le.1 ht⟩, (hvalue t).2 hq⟩
  rw [hset] at h
  have hupper : i.upper = 1 := by
    refine h.upper.unique ⟨⟨1, by norm_num⟩, ?_⟩
    rintro _ ⟨t, ht, rfl⟩
    exact ht
  have hlower : i.lower = 0 := by
    refine h.lower.unique ⟨⟨0, by norm_num⟩, ?_⟩
    rintro _ ⟨t, -, rfl⟩
    exact abs_nonneg t
  cases i
  cases hupper
  cases hlower
  rfl

/-- No input admitted by its bounds has an output in the range. -/
theorem not_admits_absolute : ¬∃ v, (BuildArguments.absolute "output").Admits .absolute v := by
  rintro ⟨v, hin, hout⟩
  obtain ⟨t, rfl, ht⟩ := liesBetween_single.1 hin
  obtain ⟨y, hy, hlow, -⟩ := liesBetween_single.1 (hout (by decide +kernel))
  have hvalue : Network.absolute.eval [t] = [|t|] :=
    (List.cons.inj (List.cons.inj (preactivations_absolute t)).2).1
  rw [hvalue] at hy
  cases hy
  have hone : |t| ≤ 1 := abs_le.2 ht
  linarith

/-- The request for the absolute value in standard mode. -/
def Request.absolute : Request Rat :=
  { network := .absolute
    name := .text "absolute"
    plan := .standard
    settings := .default
    jobs := .inPlace
    box := [⟨1, -1⟩]
    given := none }

theorem namesFit_absolute : Request.absolute.NamesFit where
  inputs := by decide +kernel
  box := by decide +kernel
  hidden := by decide +kernel
  outputs := by decide +kernel
  range := by decide +kernel

/-- Intervals alone bound the absolute value by two, optimisation by one. A range of the output that is out
of reach leaves the hidden layer the intervals. -/
theorem tightened_bounds_exact_absolute :
    Network.absolute.intervals [⟨1, -1⟩] = [[⟨1, -1⟩, ⟨1, -1⟩], [⟨2, 0⟩]] ∧
      (∃ f w', formulateNetwork .ideal none (.absolute "standard") (.ofModel (.empty "model")) = .ok f w' ∧
        f.table.map List.length = [2, 1] ∧ at? f.table (1, 0) = some ⟨1, 0⟩) ∧
      ∃ f w', formulateNetwork .ideal none (.absolute "output") (.ofModel (.empty "model")) = .ok f w' ∧
        f.table = [[⟨1, -1⟩, ⟨1, -1⟩], [⟨3, 2⟩]] := by
  have hintervals : Network.absolute.intervals [⟨1, -1⟩] = [[⟨1, -1⟩, ⟨1, -1⟩], [⟨2, 0⟩]] := by
    decide +kernel
  refine ⟨hintervals, ?_, ?_⟩
  · obtain ⟨hexact, htotal⟩ := @tightened_bounds_exact .ideal none (.absolute "standard")
      (.ofModel (.empty "model")) exact_ideal rfl rfl rfl rfl rfl
    have hjobs : ∀ fault, Jobs.ofValue (.int 1) ≠ .none fault := by
      intro fault h
      rw [show Jobs.ofValue (.int 1) = .inPlace from rfl] at h
      cases h
    obtain ⟨f, w', h⟩ := htotal .absolute rfl (by decide) hjobs namesFit_absolute
    obtain ⟨n, us, ls, hn, -, -, -, hstandard, -⟩ := hexact f w' h
    cases hn
    obtain ⟨hwidths, hspans⟩ := hstandard (by decide +kernel)
    have hlen : f.table.map List.length = [2, 1] := hwidths
    obtain ⟨i, hi⟩ : ∃ i, at? f.table (1, 0) = some i := by
      refine exists_at? (n := 1) ?_ Nat.zero_lt_one
      rw [hlen]
      rfl
    rw [spans_absolute (hspans _ i hi)] at hi
    exact ⟨f, w', h, hlen, hi⟩
  · have hbuild : Action.succeeds (formulateNetwork .ideal none (.absolute "output"))
        (.ofModel (.empty "model")) = true := by decide +kernel
    obtain ⟨f, w', h⟩ := Action.exists_of_succeeds hbuild
    obtain ⟨hexact, -⟩ := @tightened_bounds_exact .ideal none (.absolute "output")
      (.ofModel (.empty "model")) exact_ideal rfl rfl rfl rfl rfl
    obtain ⟨n, us, ls, hn, -, hus, hls, -, houtput⟩ := hexact f w' h
    cases hn
    obtain ⟨table, ous, ols, hous, hols, htable, -, -, hnone⟩ := houtput (by decide +kernel)
    obtain ⟨last, hlast⟩ := hnone not_admits_absolute
    obtain ⟨_, hus, rfl, -⟩ := hus
    cases hus
    obtain ⟨_, hls, rfl, -⟩ := hls
    cases hls
    obtain ⟨_, hous, rfl, -⟩ := hous
    cases hous
    obtain ⟨_, hols, rfl, -⟩ := hols
    cases hols
    have hsplit : table ++ [last] = [[⟨1, -1⟩, ⟨1, -1⟩]] ++ [[⟨2, 0⟩]] := hlast.symm.trans hintervals
    rw [(List.append_inj' hsplit rfl).1] at htable
    exact ⟨f, w', h, htable⟩

end ReluMilp
