import ReluMilp.Proofs.Nesting

/-!
# How strong the bounds of the modes are

The bounds that two builds find are compared by what the rows of a layer leave to its values, layer by
layer, with the binary variables whole or relaxed. That depends on intervals and on values alone, not on the
models, which the builds fill in a different order.

* `Layer.leaves` — what the rows of a hidden layer leave; `TableEncloses` — intervals that hold everything
  which is left on the way through some layers;
* `TableEncloses.has` — they hold the affine values;
* `LayerAdded.leaves_subset`, `buildHidden_encloses` — bounds found layer by layer are such;
* `Model.feasible_of_exchanged` — rows for narrower intervals admit no more;
* `retighten_ordered` — bounds found on the complete model lie within all such intervals;
* `tightened_bounds_ordered` — bounds with a range of the output lie within those without one, and exact
  bounds within relaxed ones.
-/

namespace ReluMilp

open Scalar

/-! ### What the rows of a layer leave -/

/-- What the rows of a hidden layer for some intervals leave to its values on some vectors. -/
def Layer.leaves (relax : Bool) (l : Layer Rat) (is : List (Interval Rat)) (V : Set (List Rat)) :
    Set (List Rat) :=
  {as | ∃ v ∈ V, Forall₃ (fun n i a => ∃ s z, LooseBigM relax i (n.preactivation v) a s z) l.neurons is as}

/-- Intervals of consecutive layers hold the affine values on whatever the layers before leave of some
vectors. -/
inductive TableEncloses (relax : Bool) : Set (List Rat) → List (Layer Rat) → List (List (Interval Rat)) → Prop
  | nil {V : Set (List Rat)} : TableEncloses relax V [] []
  | cons {V : Set (List Rat)} {l : Layer Rat} {is : List (Interval Rat)} {ls : List (Layer Rat)}
      {table : List (List (Interval Rat))} :
      List.Forall₂ (fun n i => ∀ v ∈ V, i.Has (n.preactivation v)) l.neurons is →
      TableEncloses relax (l.leaves relax is V) ls table → TableEncloses relax V (l :: ls) (is :: table)

section Leaves

variable {relax rectified : Bool} {l : Layer Rat} {before is js : List (Interval Rat)}
  {V V' : Set (List Rat)} {v : List Rat}

/-- Narrower intervals and fewer vectors leave less. -/
theorem Layer.leaves_mono (hV : V ⊆ V') (hi : List.Forall₂ Interval.Within is js) :
    l.leaves relax js V ⊆ l.leaves relax is V' := by
  rintro as ⟨v, hv, has⟩
  refine ⟨v, hV hv, ?_⟩
  clear hv
  generalize l.neurons = ns at has ⊢
  induction has generalizing is with
  | nil =>
    cases hi
    exact .nil
  | cons h _ ih =>
    cases hi with
    | cons hij hijs =>
      obtain ⟨s, z, hloose⟩ := h
      exact .cons ⟨s, z, hloose.loosen hij⟩ (ih hijs)

/-- What is left lies in the intervals, cut by the rectifier. -/
theorem encloses_leaves
    (h : List.Forall₂ (fun n i => ∀ v ∈ V, i.Has (n.preactivation v)) l.neurons is)
    (hv : v ∈ l.leaves relax is V) : Encloses true is v := by
  obtain ⟨u, hu, has⟩ := hv
  show List.Forall₂ Interval.Has (is.map Interval.clamp) v
  rw [List.forall₂_map_left_iff]
  generalize l.neurons = ns at h has
  induction has with
  | nil => exact .nil
  | cons hloose _ ih =>
    obtain ⟨hi, his⟩ := List.forall₂_cons.1 h
    obtain ⟨s, z, hloose⟩ := hloose
    exact .cons (hloose.clamp_has (hi u hu)) (ih his)

/-- The values of the layer are left if the intervals hold its affine values. -/
theorem eval_mem_leaves (hrelu : l.activation = .relu) (hv : v ∈ V)
    (h : List.Forall₂ (fun n i => i.Has (n.preactivation v)) l.neurons is) :
    l.eval v ∈ l.leaves relax is V := by
  refine ⟨v, hv, ?_⟩
  unfold Layer.eval Layer.preactivations
  rw [hrelu, List.map_map]
  generalize l.neurons = ns at h ⊢
  induction h with
  | nil => exact .nil
  | @cons n i _ _ hi _ ih =>
    refine .cons ⟨max 0 (-n.preactivation v), if n.preactivation v ≤ 0 then 1 else 0, ?_⟩ ih
    have hr : Rectifies (n.preactivation v) (relu (n.preactivation v)) (max 0 (-n.preactivation v))
        (if n.preactivation v ≤ 0 then 1 else 0) := by
      refine ⟨by rw [relu_eq_max, max_comm], rfl, ?_, fun hpos => if_neg (not_le.2 hpos),
        fun hneg => if_pos hneg.le⟩
      split
      · exact .inr rfl
      · exact .inl rfl
    exact (hr.bigM hi).loose relax

namespace TableEncloses

variable {ls : List (Layer Rat)} {table : List (List (Interval Rat))}

theorem length_eq (h : TableEncloses relax V ls table) :
    table.map List.length = ls.map (·.outputs) := by
  induction h with
  | nil => rfl
  | cons hl _ ih =>
    rw [List.map_cons, List.map_cons, ih, ← hl.length_eq]
    rfl

theorem mono (h : TableEncloses relax V' ls table) (hV : V ⊆ V') : TableEncloses relax V ls table := by
  induction h generalizing V with
  | nil => exact .nil
  | @cons V' l is ls table hl _ ih =>
    have hsame : List.Forall₂ Interval.Within is is := List.forall₂_same.2 fun i _ => ⟨le_rfl, le_rfl⟩
    exact .cons (hl.imp fun n i hi v hv => hi v (hV hv)) (ih (Layer.leaves_mono hV hsame))

/-- The intervals hold the affine values of all layers. Only the last layer may lack the rectifier. -/
theorem has (h : TableEncloses relax V ls table) (hrelu : ∀ l ∈ ls.dropLast, l.activation = .relu)
    (hv : v ∈ V) : List.Forall₂ (List.Forall₂ Interval.Has) table (preactivationsFrom ls v) := by
  induction h generalizing v with
  | nil => exact .nil
  | @cons V l is ls table hl hrest ih =>
    have hhas : List.Forall₂ (fun n i => i.Has (n.preactivation v)) l.neurons is :=
      hl.imp fun n i hi => hi v hv
    have hfirst : List.Forall₂ Interval.Has is (l.preactivations v) := by
      unfold Layer.preactivations
      rw [List.forall₂_map_right_iff]
      exact hhas.flip
    cases hrest with
    | nil => exact .cons hfirst .nil
    | cons hl' hrest =>
      rw [List.dropLast_cons_cons, List.forall_mem_cons] at hrelu
      exact .cons hfirst (ih hrelu.2 (eval_mem_leaves hrelu.1 hv hhas))

end TableEncloses

end Leaves

/-! ### Extremes lie within -/

/-- Extremes of some numbers lie within every interval that holds the numbers. -/
theorem Interval.Spans.within {i j : Interval Rat} {s : Set Rat} (h : i.Spans s) (hj : ∀ p ∈ s, j.Has p) :
    j.Within i :=
  ⟨(hj _ h.upper.1).2, (hj _ h.lower.1).1⟩

theorem forall₂_spans_within {S : Neuron Rat → Set Rat} {ns : List (Neuron Rat)}
    {is js : List (Interval Rat)} (h : List.Forall₂ (fun n i => i.Spans (S n)) ns is)
    (hj : List.Forall₂ (fun n j => ∀ p ∈ S n, j.Has p) ns js) : List.Forall₂ Interval.Within js is :=
  forall₂_trans (fun _ _ _ hj hi => hi.within hj) hj.flip h

/-- A table of extremes lies within every table that holds the affine values. -/
theorem TableSpans.within {V : Set (List Rat)} {ls : List (Layer Rat)}
    {table table' : List (List (Interval Rat))} (h : TableSpans V ls table) (hV : V.Nonempty)
    (hhas : ∀ v ∈ V, List.Forall₂ (List.Forall₂ Interval.Has) table' (preactivationsFrom ls v)) :
    List.Forall₂ (List.Forall₂ Interval.Within) table' table := by
  induction h generalizing table' with
  | nil =>
    obtain ⟨v, hv⟩ := hV
    cases hhas v hv
    exact .nil
  | @cons V l is ls table hl _ ih =>
    obtain ⟨js, table', rfl⟩ : ∃ js t, table' = js :: t := by
      obtain ⟨v, hv⟩ := hV
      cases hhas v hv
      exact ⟨_, _, rfl⟩
    have hlen : l.neurons.length = js.length := by
      obtain ⟨v, hv⟩ := hV
      rw [(List.forall₂_cons.1 (hhas v hv)).1.length_eq, Layer.length_preactivations]
      rfl
    have hfirst : List.Forall₂ (fun n j => ∀ p ∈ n.preactivation '' V, j.Has p) l.neurons js := by
      have hall := forall₂_forall (R := fun v n j => Interval.Has j (n.preactivation v)) hlen fun v hv => by
        have hhead := (List.forall₂_cons.1 (hhas v hv)).1
        unfold Layer.preactivations at hhead
        rw [List.forall₂_map_right_iff] at hhead
        exact hhead.flip
      exact hall.imp fun n j hj => Set.forall_mem_image.2 hj
    refine .cons (forall₂_spans_within hl hfirst) (ih (hV.image _) ?_)
    rintro _ ⟨v, hv, rfl⟩
    exact (List.forall₂_cons.1 (hhas v hv)).2

/-! ### Layers that are bounded one after the other -/

section Added

variable {relax : Bool} {m m' : Model Rat} {prev : List VarId} {l : Layer Rat} {us : List HiddenUnit}
  {is : List (Interval Rat)} {V : Set (List Rat)}

theorem readings_subset_loosened (relax : Bool) (hp : m.Plain) (ids : List VarId) :
    m.readings ids ⊆ (m.loosened relax).readings ids := by
  rintro _ ⟨x, hx, rfl⟩
  exact ⟨x, hx.loosened_of_not_gapped fun _ => hp.not_gapped, rfl⟩

/-- New variables take what the rows of a hidden layer leave to them. -/
theorem exists_loose {ns : List (Neuron Rat)} {v as : List Rat}
    (h : Forall₃ (fun n i a => ∃ s z, LooseBigM relax i (n.preactivation v) a s z) ns is as)
    (hlen : us.length = ns.length) (hnodup : (us.flatMap HiddenUnit.vars).Nodup) (x₀ : Assignment Rat) :
    ∃ x : Assignment Rat, us.map (fun u => x u.x) = as ∧
      (∀ id ∉ us.flatMap HiddenUnit.vars, x id = x₀ id) ∧
      Forall₃ (fun n u i => LooseBigM relax i (n.preactivation v) (x u.x) (x u.s) (x u.z)) ns us is := by
  induction h generalizing us with
  | nil =>
    rw [List.length_nil, List.length_eq_zero_iff] at hlen
    rw [hlen]
    exact ⟨x₀, rfl, fun _ _ => rfl, .nil⟩
  | @cons n i a ns is as hrow _ ih =>
    cases us with
    | nil => cases hlen
    | cons u us =>
      obtain ⟨s, z, hrow⟩ := hrow
      rw [List.flatMap_cons] at hnodup ⊢
      obtain ⟨hu, hus, hdisj⟩ := List.nodup_append'.1 hnodup
      obtain ⟨x, hx, hoff, hrows⟩ := ih (Nat.succ.inj hlen) hus
      have hthree : [a, s, z].length = u.vars.length := rfl
      obtain ⟨y, hy, hyoff⟩ := exists_assignment hu hthree x
      obtain ⟨hya, hy⟩ := List.cons.inj hy
      obtain ⟨hys, hy⟩ := List.cons.inj hy
      obtain ⟨hyz, -⟩ := List.cons.inj hy
      -- the variables of the other neurons keep their values
      have hkeep : ∀ u' ∈ us, ∀ id ∈ u'.vars, y id = x id := fun u' hu' id hid =>
        hyoff id fun hmem => hdisj hmem (List.mem_flatMap.2 ⟨u', hu', hid⟩)
      refine ⟨y, ?_, fun id hid => ?_, .cons ?_ (hrows.imp fun n' u' i' hu' h' => ?_)⟩
      · rw [List.map_cons, hya, ← hx]
        congr 1
        exact List.map_congr_left fun u' hu' => hkeep u' hu' _ List.mem_cons_self
      · rw [List.mem_append, not_or] at hid
        rw [hyoff id hid.1, hoff id hid.2]
      · rw [hya, hys, hyz]
        exact hrow
      · rw [hkeep u' hu' _ List.mem_cons_self, hkeep u' hu' _ (List.mem_cons_of_mem _ List.mem_cons_self),
          hkeep u' hu' _ (List.mem_cons_of_mem _ (List.mem_cons_of_mem _ List.mem_cons_self))]
        exact h'

/-- The variables of a new layer take everything that its rows leave. -/
theorem LayerAdded.leaves_subset (h : LayerAdded m m' prev l us is) (hm : m.WellFormed)
    (hprev : ∀ id ∈ prev, id < m.nextVar) (hV : V ⊆ (m.loosened relax).readings prev) :
    l.leaves relax is V ⊆ (m'.loosened relax).readings (us.map (·.x)) := by
  rintro as ⟨v, hv, has⟩
  obtain ⟨x, hx, hread⟩ := hV hv
  have hnodup : (us.flatMap HiddenUnit.vars).Nodup := by
    refine (perm_triples _ _ _ us).nodup ?_
    exact h.adds.vars_nodup
  obtain ⟨y, hy, hoff, hrows⟩ := exists_loose has h.stands.length_middle hnodup x
  have hnew : ∀ id < m.nextVar, y id = x id := by
    intro id hid
    refine hoff id fun hmem => absurd hid (not_lt.2 (h.adds.vars_new ?_).1)
    obtain ⟨u, hu, hmem⟩ := List.mem_flatMap.1 hmem
    exact mem_unitVars_iff.2 ⟨u, hu, hmem⟩
  have hold : prev.map y = v := by
    rw [← hread]
    exact List.map_congr_left fun id hid => hnew id (hprev id hid)
  refine ⟨y, (h.loosened_iff hm).2 ⟨Model.Feasible.congr hx (hm.loosened relax) ?_, ?_⟩, ?_⟩
  · rw [m.loosened_nextVar]
    exact hnew
  · rw [← hold] at hrows
    exact hrows
  · show (us.map (·.x)).map y = as
    rw [List.map_map]
    exact hy

end Added

section Builds

variable {solver : Solver Rat} {r : Request Rat} {prev : List VarId} {rectified : Bool}
  {before is : List (Interval Rat)} {V : Set (List Rat)} {w w' : Workspace Rat}

/-- The bounds of the next layer hold its affine values on what the layers before it leave. -/
theorem layerBounds_encloses {i : Nat} {l : Layer Rat} (hs : solver.Sound) (hgiven : r.given = none)
    (hV : V ⊆ (w.model.loosened r.settings.relax).readings prev)
    (hbefore : ∀ v ∈ V, Encloses rectified before v)
    (h : layerBounds solver r (i + 1) prev rectified before l w = .ok is w') :
    List.Forall₂ (fun n i => ∀ v ∈ V, i.Has (n.preactivation v)) l.neurons is := by
  have hfits : r.Fits i [l] := by
    intro table ht
    rw [hgiven] at ht
    cases ht
  refine forall₂_forall (length_layerBounds hfits h).symm fun v hv => ?_
  obtain ⟨x, hx, rfl⟩ := hV hv
  exact layerBounds_loosened hs hgiven h (hbefore _ hv) hx

/-- Hidden layers one after the other: whatever holds what they leave to the layers after them, their table
completes it. -/
theorem buildHidden_encloses {i : Nat} {ls : List (Layer Rat)} {stem : Stem Rat} (hs : solver.Sound)
    (hgiven : r.given = none) (hm : w.model.WellFormed) (hprev : ∀ id ∈ prev, id < w.model.nextVar)
    (hV : V ⊆ (w.model.loosened r.settings.relax).readings prev)
    (hbefore : ∀ v ∈ V, Encloses rectified before v)
    (h : buildHidden solver r (i + 1) prev rectified before ls w = .ok stem w') :
    ∃ V', V' ⊆ (w'.model.loosened r.settings.relax).readings stem.last ∧
      (∀ v ∈ V', Encloses stem.rectified stem.bounds v) ∧
      ∀ ls' table, TableEncloses r.settings.relax V' ls' table →
        TableEncloses r.settings.relax V (ls ++ ls') (stem.table ++ table) := by
  have hfits : ∀ i ls, r.Fits i ls := by
    intro i ls table ht
    rw [hgiven] at ht
    cases ht
  induction ls generalizing i prev rectified before V stem w with
  | nil =>
    obtain ⟨rfl, rfl⟩ := Action.pure_eq_ok.1 h
    exact ⟨V, hV, hbefore, fun _ _ ht => ht⟩
  | cons l ls ih =>
    obtain ⟨is, us, rest, w₁, w₂, his, hus, hrest, rfl⟩ := buildHidden_cons h
    have hm₁ := (layerBounds_eq_ok his).1
    have hprev₁ : ∀ id ∈ prev, id < w₁.model.nextVar := by
      rw [hm₁]
      exact hprev
    have hlayer := addHidden_added hprev₁ (length_layerBounds (hfits i (l :: ls)) his) hus
    rw [hm₁] at hlayer
    have hfirst := layerBounds_encloses hs hgiven hV hbefore his
    have hnext : ∀ id ∈ us.map (·.x), id < w₂.model.nextVar :=
      fun id hid => (hlayer.adds.vars_new (mem_xs_unitVars hid)).2
    obtain ⟨V', hV', hbounds, hlater⟩ := ih (hlayer.adds.wellFormed hm) hnext
      (hlayer.leaves_subset hm hprev hV) (fun v hv => encloses_leaves hfirst hv) hrest
    exact ⟨V', hV', hbounds, fun ls' table ht => .cons hfirst (hlater ls' table ht)⟩

end Builds

/-! ### Layers that are bounded again -/

section Exchanged

variable {relax : Bool} {m m₂ : Model Rat} {prev : List VarId} {ns : List (Neuron Rat)}
  {us us' : List HiddenUnit} {is js : List (Interval Rat)} {x : Assignment Rat}

theorem loose_of_vars (h : Forall₃ (HiddenUnit.LooseBigM relax x prev) ns us' js)
    (hvars : us'.map HiddenUnit.vars = us.map HiddenUnit.vars) (hin : List.Forall₂ Interval.Within is js) :
    Forall₃ (HiddenUnit.LooseBigM relax x prev) ns us is := by
  induction h generalizing us is with
  | nil =>
    cases hin
    rw [List.map_nil, eq_comm, List.map_eq_nil_iff] at hvars
    rw [hvars]
    exact .nil
  | @cons n u' j ns us' js hu _ ih =>
    cases hin with
    | cons hij hijs =>
    cases us with
    | nil => cases hvars
    | cons u us =>
      obtain ⟨hsame, hvars⟩ := List.cons.inj hvars
      obtain ⟨hx, hs, hz⟩ : u'.x = u.x ∧ u'.s = u.s ∧ u'.z = u.z := by
        simpa only [HiddenUnit.vars, List.cons.injEq, and_true] using hsame
      unfold HiddenUnit.LooseBigM at hu
      rw [hx, hs, hz] at hu
      exact .cons (ReluMilp.LooseBigM.loosen hu hij) (ih hvars hijs)

/-- Rows that are exchanged for those of narrower intervals admit no more. -/
theorem Model.feasible_of_exchanged (hm : m.WellFormed) (hkeep : m.Keeps m₂ (Body.switchRows us))
    (hold : Forall₃ (HiddenUnit.Stands m prev) ns us is)
    (hloose : Forall₃ (HiddenUnit.LooseBigM relax x prev) ns us is) (hx : (m₂.loosened relax).Feasible x) :
    (m.loosened relax).Feasible x := by
  have hsat := (satisfiedOn_loosened_layer hold hm).2 hloose
  constructor
  · rw [m.loosened_vars, List.forall_mem_map]
    exact fun v hv => hx.1 _ (mem_loosened relax (hkeep.vars v hv))
  · rw [m.loosened_rows]
    intro r hr
    by_cases hid : r.id ∈ Body.switchRows us
    · obtain ⟨u, hu, hmem⟩ := List.mem_flatMap.1 hid
      refine hsat.2 r ?_ (mem_unitRows_iff.2 ⟨u, hu, List.mem_cons_of_mem _ hmem⟩)
      rw [m.loosened_rows]
      exact hr
    · refine hx.2 r ?_
      rw [m₂.loosened_rows]
      exact hkeep.rows r hr hid

theorem mem_leaves_of_loose {l : Layer Rat} {V : Set (List Rat)}
    (h : Forall₃ (HiddenUnit.LooseBigM relax x prev) l.neurons us is) (hV : prev.map x ∈ V) :
    (us.map (·.x)).map x ∈ l.leaves relax is V := by
  refine ⟨prev.map x, hV, ?_⟩
  rw [List.map_map]
  generalize l.neurons = ns at h ⊢
  induction h with
  | nil => exact .nil
  | cons hu _ ih => exact .cons ⟨_, _, hu⟩ ih

end Exchanged

section Retighten

variable {solver : Solver Rat} {r : Request Rat} {n : Network Rat} {b : Body} {k : Nat}
  {prev : List VarId} {lpre ls : List (Layer Rat)} {pre uss uss' : List (List HiddenUnit)}
  {tpre iss iss' table : List (List (Interval Rat))} {w w' : Workspace Rat}

/-- Hidden layers that are bounded again on a model with a feasible assignment: the bounds lie within all
intervals that hold what the layers leave. -/
theorem retighten_ordered (hs : solver.Exact) (hn : n.hidden = lpre ++ ls) (hl : lpre.length = pre.length)
    (ht : tpre.length = pre.length) (hprev : lastVars b.inputs pre = prev) (hm : w.model.WellFormed)
    (hp : w.model.Plain) (hlt : ∀ id ∈ prev, id < w.model.nextVar)
    (hb : (b.withHidden (pre ++ uss)).Stands w.model n (tpre ++ iss)) (hne : ∃ x, w.model.Feasible x)
    (hknown : TableEncloses r.settings.relax ((w.model.loosened r.settings.relax).readings prev) ls iss)
    (htable : TableEncloses r.settings.relax ((w.model.loosened r.settings.relax).readings prev) ls table)
    (h : retighten solver r k prev ls uss iss w = .ok (uss', iss') w') :
    List.Forall₂ (List.Forall₂ Interval.Within) table iss' := by
  induction ls generalizing k prev lpre pre uss uss' tpre iss iss' table w with
  | nil =>
    cases hb.rest hn hl ht
    obtain ⟨heq, rfl⟩ := Action.pure_eq_ok.1 h
    cases heq
    cases htable
    exact .nil
  | cons l ls ih =>
    cases hb.rest hn hl ht with
    | @cons _ _ us is _ uss iss _ _ =>
    cases hknown with
    | cons hfirst hknown =>
    cases htable with
    | @cons _ _ js _ table hjs htable =>
    obtain ⟨os, us', uss₂, iss₂, w₂, rfl, rfl, hlayer, hos, hvars, hsame, hkeep, hm₂, hb₂, hfeas₂,
        hlater⟩ := retighten_cons hn hl ht hprev hm hb h
    obtain ⟨x₀, hx₀⟩ := hne
    have hloosened : (w.model.loosened r.settings.relax).Feasible x₀ :=
      hx₀.loosened_of_not_gapped fun _ => hp.not_gapped
    have hspans := (improveAll_exact hs (hm.loosened r.settings.relax) (hp.loosened _) (fun id hid => by
      rw [Model.loosened_nextVar]
      exact hlt id hid) hfirst (hos.imp fun n o ho => ho.loosened)).1 ⟨_, x₀, hloosened, rfl⟩
    have hin : List.Forall₂ Interval.Within js (improveAll is os) :=
      forall₂_spans_within hspans (hjs.imp fun n j hj => Set.forall_mem_image.2 hj)
    have hold : List.Forall₂ Interval.Within is (improveAll is os) :=
      forall₂_spans_within hspans (hfirst.imp fun n i hi => Set.forall_mem_image.2 hi)
    have hstands : Forall₃ (HiddenUnit.Stands w₂.model prev) l.neurons us' (improveAll is os) := by
      rw [← List.append_cons, ← List.append_cons] at hb₂
      exact hprev ▸ hb₂.first hn hl ht
    have hxs : us'.map (·.x) = us.map (·.x) := map_x_of_map_vars hvars
    -- after the exchange the next layer reads no more than the new rows leave
    have hreadings : (w₂.model.loosened r.settings.relax).readings (us'.map (·.x)) ⊆
        l.leaves r.settings.relax (improveAll is os) ((w.model.loosened r.settings.relax).readings prev) := by
      rintro _ ⟨x, hx, rfl⟩
      have hloose := (satisfiedOn_loosened_layer hstands hm₂).1 (Model.Feasible.satisfiedOn hx _ _)
      have hx' := Model.feasible_of_exchanged hm hkeep hlayer (loose_of_vars hloose hvars hold) hx
      exact mem_leaves_of_loose hloose ⟨x, hx', rfl⟩
    have hlt₂ : ∀ id ∈ us'.map (·.x), id < w₂.model.nextVar := by
      intro id hid
      rw [hxs] at hid
      obtain ⟨u, hu, rfl⟩ := List.mem_map.1 hid
      obtain ⟨n', i, hst⟩ := hlayer.exists_of_mem hu
      rw [hsame.nextVar]
      exact hst.vars_lt hm List.mem_cons_self
    have hp₂ : w₂.model.Plain := by
      unfold Model.Plain
      rw [hsame.vars]
      exact hp
    have hfeas := hfeas₂ (hs.sound.covers_of_not_gapped fun _ => hp.not_gapped)
    rw [List.append_cons lpre] at hn
    exact .cons hin (ih hn (length_snoc hl l us') (length_snoc ht _ us')
      (lastVars_append_singleton b.inputs pre us') hm₂ hp₂ hlt₂ hb₂ ⟨x₀, (hfeas x₀).2 hx₀⟩
      (hknown.mono (hreadings.trans (Layer.leaves_mono subset_rfl hold)))
      (htable.mono (hreadings.trans (Layer.leaves_mono subset_rfl hin))) hlater)

/-- Hidden layers that are bounded again: the bounds hold the affine values on what the model admits. -/
theorem retighten_has (hs : solver.Sound) (hn : n.hidden = lpre ++ ls) (hl : lpre.length = pre.length)
    (ht : tpre.length = pre.length) (hprev : lastVars b.inputs pre = prev) (hm : w.model.WellFormed)
    (hp : w.model.Plain) (hb : (b.withHidden (pre ++ uss)).Stands w.model n (tpre ++ iss)) {x : Assignment Rat}
    (hx : w.model.Feasible x)
    (hknown : List.Forall₂ (List.Forall₂ Interval.Has) iss (preactivationsFrom ls (prev.map x)))
    (h : retighten solver r k prev ls uss iss w = .ok (uss', iss') w') :
    List.Forall₂ (List.Forall₂ Interval.Has) iss' (preactivationsFrom ls (prev.map x)) := by
  induction ls generalizing k prev lpre pre uss uss' tpre iss iss' w with
  | nil =>
    cases hb.rest hn hl ht
    obtain ⟨heq, rfl⟩ := Action.pure_eq_ok.1 h
    cases heq
    exact hknown
  | cons l ls ih =>
    cases hb.rest hn hl ht with
    | @cons _ _ us is _ uss iss _ _ =>
    obtain ⟨os, us', uss₂, iss₂, w₂, rfl, rfl, hlayer, hos, hvars, hsame, -, hm₂, hb₂, hfeas₂, hlater⟩ :=
      retighten_cons hn hl ht hprev hm hb h
    have hcover : solver.Covers r.settings.relax w.model prev :=
      hs.covers_of_not_gapped fun _ => hp.not_gapped
    have hp₂ : w₂.model.Plain := by
      unfold Model.Plain
      rw [hsame.vars]
      exact hp
    have hrelu : l.activation = .relu := by
      refine n.hidden_relu l ?_
      rw [hn]
      exact List.mem_append_right _ List.mem_cons_self
    have heval : (us'.map (·.x)).map x = l.eval (prev.map x) := by
      rw [map_x_of_map_vars hvars]
      have hbig := (satisfiedOn_layer hlayer hm).1 (Model.Feasible.satisfiedOn hx _ _)
      exact map_value_eq hrelu (hbig.forall₂ fun _ _ _ hb => BigM.rectifies hb)
    obtain ⟨hfirst, hrest⟩ := List.forall₂_cons.1 hknown
    unfold Layer.preactivations at hfirst
    rw [List.forall₂_map_right_iff] at hfirst
    have hhas := improveAll_has hfirst.flip (hos.imp fun n o ho => hcover n o x ho hx)
    rw [List.append_cons lpre] at hn
    rw [← heval] at hrest
    have hlast := ih hn (length_snoc hl l us') (length_snoc ht _ us')
      (lastVars_append_singleton b.inputs pre us') hm₂ hp₂ hb₂ ((hfeas₂ hcover x).2 hx) hrest hlater
    rw [heval] at hlast
    refine .cons ?_ hlast
    unfold Layer.preactivations
    rw [List.forall₂_map_right_iff]
    exact hhas.flip

end Retighten

/-! ### Builds -/

section Requests

variable {solver : Solver Rat} {r : Request Rat} {f : Formulation Rat} {w w' : Workspace Rat}

/-- On the way of a build, the bounds of the hidden layers and of all layers hold what the layers leave of
the box. -/
theorem Request.Assembles.encloses {s : Assembled Rat} {stem : Stem Rat} {w₁ w₂ : Workspace Rat}
    (h : r.Assembles solver s stem w w₁ w₂ w') (hs : solver.Sound) (hgiven : r.given = none)
    (hr : r.WellFormed) (hvars : w.model.vars = []) (hrows : w.model.rows = []) :
    TableEncloses r.settings.relax {v | List.Forall₂ Interval.Has r.box v} r.network.hidden s.table ∧
      TableEncloses r.settings.relax {v | List.Forall₂ Interval.Has r.box v} r.network.layers
        (s.table ++ [s.bounds]) := by
  obtain ⟨hf, hreadings⟩ := h.front_inputs hr hvars hrows
  have hbox : {v | List.Forall₂ Interval.Has r.box v} ⊆
      (w₁.model.loosened r.settings.relax).readings s.body.inputs := by
    rw [← hreadings]
    exact readings_subset_loosened _ hf.plain _
  have hfront : ∀ v ∈ {v | List.Forall₂ Interval.Has r.box v}, Encloses false r.box v := fun v hv => hv
  obtain ⟨V, hV, hbounds, hlater⟩ :=
    buildHidden_encloses hs hgiven hf.wellFormed hf.prev_lt hbox hfront h.hidden
  obtain ⟨_, hlast⟩ := h.bounds
  have hout := layerBounds_encloses hs hgiven hV hbounds hlast
  rw [h.table]
  have hhidden := hlater [] [] .nil
  rw [List.append_nil, List.append_nil] at hhidden
  exact ⟨hhidden, hlater [r.network.output] [s.bounds] (.cons hout .nil)⟩

/-- In standard mode the bounds hold what the layers leave of the box. -/
theorem Request.build_encloses (hs : solver.Sound) (hgiven : r.given = none) (hplan : r.plan = .standard)
    (hr : r.WellFormed) (hvars : w.model.vars = []) (hrows : w.model.rows = [])
    (h : r.build solver w = .ok f w') :
    ∃ table last, f.table = table ++ [last] ∧
      TableEncloses r.settings.relax {v | List.Forall₂ Interval.Has r.box v} r.network.hidden table ∧
      TableEncloses r.settings.relax {v | List.Forall₂ Interval.Has r.box v} r.network.layers f.table := by
  rw [r.build_eq] at h
  obtain ⟨s, w₃, hass, h⟩ := Action.bind_eq_ok.1 h
  obtain ⟨stem, w₁, w₂, hass⟩ := assemble_eq_ok hass
  unfold Request.finish at h
  rw [hplan] at h
  obtain ⟨rfl, rfl⟩ := Action.pure_eq_ok.1 h
  obtain ⟨hhidden, hall⟩ := hass.encloses hs hgiven hr hvars hrows
  exact ⟨_, _, rfl, hhidden, hall⟩

/-- With a range of the output that some input in the box reaches, the bounds of the hidden layers lie within
all intervals that hold what the layers leave of the box, and they hold the affine values of such
inputs. -/
theorem Request.build_ordered {range : List (Interval Rat)} (hs : solver.Exact) (hgiven : r.given = none)
    (hplan : r.plan = .output range) (hr : r.WellFormed) (hvars : w.model.vars = [])
    (hrows : w.model.rows = []) (h : r.build solver w = .ok f w')
    (hreach : ∃ v, List.Forall₂ Interval.Has r.box v ∧
      List.Forall₂ Interval.Has range (r.network.eval v)) :
    ∃ table, f.table = table ++ [range] ∧
      (∀ t, TableEncloses r.settings.relax {v | List.Forall₂ Interval.Has r.box v} r.network.hidden t →
        List.Forall₂ (List.Forall₂ Interval.Within) t table) ∧
      ∀ v, List.Forall₂ Interval.Has r.box v → List.Forall₂ Interval.Has range (r.network.eval v) →
        List.Forall₂ (List.Forall₂ Interval.Has) table (preactivationsFrom r.network.hidden v) := by
  rw [r.build_eq] at h
  obtain ⟨s, w₃, hass, h⟩ := Action.bind_eq_ok.1 h
  obtain ⟨stem, w₁, w₂, hass⟩ := assemble_eq_ok hass
  unfold Request.finish at h
  rw [hplan] at h
  obtain ⟨⟨units, table⟩, v₀, hre, h⟩ := Action.bind_eq_ok.1 h
  obtain ⟨rfl, rfl⟩ := Action.pure_eq_ok.1 h
  have hm₃ := (hass.adds hr).wellFormed (Model.wellFormed_of_nil hvars hrows)
  have hbody := hass.stands hr
  have hstands : (s.body.withHidden ([] ++ s.body.hidden)).Stands w₃.model r.network ([] ++ s.table) := hbody
  have hreadings : w₃.model.readings s.body.inputs = {v | List.Forall₂ Interval.Has r.box v ∧
      List.Forall₂ Interval.Has range (r.network.eval v)} := by
    rw [hass.readings_inputs hs.sound hgiven hr hvars hrows, hplan]
    simp only [Plan.output.injEq, forall_eq']
  have hread : ∀ v, List.Forall₂ Interval.Has r.box v → List.Forall₂ Interval.Has range (r.network.eval v) →
      ∃ x, w₃.model.Feasible x ∧ s.body.inputs.map x = v := by
    intro v hv hrange
    have hmem : v ∈ w₃.model.readings s.body.inputs := by
      rw [hreadings]
      exact ⟨hv, hrange⟩
    exact hmem
  have hbox : (w₃.model.loosened r.settings.relax).readings s.body.inputs ⊆
      {v | List.Forall₂ Interval.Has r.box v} := by
    rintro _ ⟨x, hx, rfl⟩
    have hadds := (hass.hidden_added hr).1.adds.trans (hass.adds_outputs hr)
    exact hass.box_of_loosened hr ((hadds.loosened _).feasible_iff.1 hx).1
  have hlt : ∀ id ∈ s.body.inputs, id < w₃.model.nextVar := by
    intro id hid
    obtain ⟨_, hv⟩ := hbody.inputs id hid
    exact hm₃.vars_lt _ hv
  obtain ⟨hknown, -⟩ := hass.encloses hs.sound hgiven hr hvars hrows
  have hn : r.network.hidden = [] ++ r.network.hidden := rfl
  have hprev : lastVars s.body.inputs [] = s.body.inputs := rfl
  have hplain := hass.plain hr hvars hrows
  refine ⟨table, rfl, fun t ht => ?_, fun v hv hrange => ?_⟩
  · obtain ⟨v, hv, hrange⟩ := hreach
    obtain ⟨x, hx, -⟩ := hread v hv hrange
    exact retighten_ordered hs hn rfl rfl hprev hm₃ hplain hlt hstands ⟨x, hx⟩ (hknown.mono hbox)
      (ht.mono hbox) hre
  · obtain ⟨x, hx, rfl⟩ := hread v hv hrange
    have hrelu : ∀ l ∈ r.network.hidden.dropLast, l.activation = .relu :=
      fun l hl => r.network.hidden_relu l (List.mem_of_mem_dropLast hl)
    exact retighten_has hs.sound hn rfl rfl hprev hm₃ hplain hstands hx (hknown.has hrelu hv) hre

end Requests

/-! ### Formulated networks -/

/-- A network was formulated in a mode without given bounds, on a model without anything else; its
subproblems were relaxed or not. -/
def BuildArguments.Formulates (a : BuildArguments Rat) (solver : Solver Rat) (mode : Mode) (relax : Bool)
    (f : Formulation Rat) : Prop :=
  ∃ settings w w', Mode.ofValue a.mode = .ok mode ∧ (settings.getD .default).relax = relax ∧
    a.boundsUpper = .absent ∧ a.boundsLower = .absent ∧ w.model.vars = [] ∧ w.model.rows = [] ∧
    formulateNetwork solver settings a w = .ok f w'

/-- Arguments for one network and one box. -/
structure BuildArguments.SameBox (a b : BuildArguments Rat) : Prop where
  network : a.network = b.network
  upper : a.inputUpper = b.inputUpper
  lower : a.inputLower = b.inputLower

/-- Arguments with one range of the output. -/
structure BuildArguments.SameRange (a b : BuildArguments Rat) : Prop where
  upper : a.outputUpper = b.outputUpper
  lower : a.outputLower = b.outputLower

section Formulates

variable {a b : BuildArguments Rat} {solver : Solver Rat} {mode : Mode} {relax : Bool}
  {f g : Formulation Rat}

theorem BuildArguments.Formulates.exists_build (h : a.Formulates solver mode relax f) :
    ∃ r w w', a.Asks r ∧ Mode.ofValue a.mode = .ok mode ∧ r.WellFormed ∧ r.given = none ∧
      r.settings.relax = relax ∧ w.model.vars = [] ∧ w.model.rows = [] ∧ f.network = r.network ∧
      r.build solver w = .ok f w' := by
  obtain ⟨settings, w, w', hmode, hrelax, hupper, hlower, hvars, hrows, h⟩ := h
  obtain ⟨r, w₀, hreq, hw₀, h⟩ := formulateNetwork_eq_ok h
  have hasks := request_eq_ok hreq
  obtain ⟨hr, hgiven⟩ := hasks.of_absent hupper hlower
  have hsettings : r.settings = settings.getD .default := (request_settings hreq).1
  have hvars₀ : w₀.model.vars = [] := by
    rw [hw₀]
    exact hvars
  have hrows₀ : w₀.model.rows = [] := by
    rw [hw₀]
    exact hrows
  obtain ⟨hnetwork, -⟩ := Request.build_stands hr (Model.wellFormed_of_nil hvars₀ hrows₀) h
  refine ⟨r, w₀, w', ⟨hasks.network, ⟨hasks.box.bounds⟩, hasks.given, hasks.mode, hasks.range⟩, hmode, hr,
    hgiven, ?_, hvars₀, hrows₀, hnetwork, h⟩
  rw [hsettings]
  exact hrelax

variable {r r' : Request Rat}

theorem BuildArguments.SameBox.requests (hab : a.SameBox b) (ha : a.Asks r) (hb : b.Asks r') :
    r'.network = r.network ∧
      {v | List.Forall₂ Interval.Has r'.box v} = {v | List.Forall₂ Interval.Has r.box v} := by
  constructor
  · have hnetwork := hb.network
    rw [← hab.network, ha.network] at hnetwork
    exact (Except.ok.inj hnetwork).symm
  · ext v
    show List.Forall₂ Interval.Has r'.box v ↔ List.Forall₂ Interval.Has r.box v
    rw [ha.box_iff, hb.box_iff, hab.upper, hab.lower]

theorem BuildArguments.SameRange.requests {range range' : List (Interval Rat)} (hab : a.SameRange b)
    (ha : a.Asks r) (hb : b.Asks r') (hnetwork : r'.network = r.network) (hplan : r.plan = .output range)
    (hplan' : r'.plan = .output range') : range' = range := by
  obtain ⟨us, ls, hus, hls, rfl⟩ := ha.range range hplan
  obtain ⟨us', ls', hus', hls', rfl⟩ := hb.range range' hplan'
  rw [hnetwork, ← hab.upper] at hus'
  rw [hnetwork, ← hab.lower] at hls'
  rw [hus.unique hus', hls.unique hls']

end Formulates

/-- The bounds of the modes are ordered by strength, for one network and one box on models without anything
else and with an exact solver. If some input in the box reaches the range of the output, the bounds of
the hidden layers with the range lie within those of standard mode, both relaxed or both not. In
standard mode for every layer, and with such a range for the hidden layers, bounds without relaxation
lie within those with it. -/
theorem tightened_bounds_ordered {solver : Solver Rat} (hs : solver.Exact) {a b : BuildArguments Rat}
    {f g : Formulation Rat} (hab : a.SameBox b) :
    (∀ relax, a.Formulates solver .standard relax f → b.Formulates solver .output relax g →
      (∃ v, b.Admits g.network v) → ∃ hidden last table range, f.table = hidden ++ [last] ∧
        g.table = table ++ [range] ∧ hidden.map List.length = f.network.hidden.map (·.outputs) ∧
        List.Forall₂ (List.Forall₂ Interval.Within) hidden table) ∧
    (a.Formulates solver .standard false f → b.Formulates solver .standard true g →
      f.table.map List.length = f.network.neuronCount ∧
        List.Forall₂ (List.Forall₂ Interval.Within) g.table f.table) ∧
    (a.SameRange b → a.Formulates solver .output false f → b.Formulates solver .output true g →
      (∃ v, b.Admits g.network v) → ∃ table table' range, f.table = table ++ [range] ∧
        g.table = table' ++ [range] ∧ table.map List.length = f.network.hidden.map (·.outputs) ∧
        List.Forall₂ (List.Forall₂ Interval.Within) table' table) := by
  refine ⟨fun relax hf hg hreach => ?_, fun hf hg => ?_, fun hrange hf hg hreach => ?_⟩
  · obtain ⟨r, w, w', ha, hmode, hr, hgiven, rfl, hvars, hrows, hnet, h⟩ := hf.exists_build
    obtain ⟨r', v, v', hb, hmode', hr', hgiven', hrelax', hvars', hrows', hnet', h'⟩ := hg.exists_build
    obtain ⟨hnetwork, hbox⟩ := hab.requests ha hb
    obtain ⟨hidden, last, htable, hhidden, -⟩ :=
      Request.build_encloses hs.sound hgiven (ha.plan_standard hmode) hr hvars hrows h
    obtain ⟨range, hplan⟩ := hb.plan_output hmode'
    rw [hnet'] at hreach
    simp only [← hb.range_iff hplan] at hreach
    obtain ⟨table, htable', hordered, -⟩ :=
      Request.build_ordered hs hgiven' hplan hr' hvars' hrows' h' hreach
    rw [hrelax', hnetwork, hbox] at hordered
    rw [hnet]
    exact ⟨hidden, last, table, range, htable, htable', hhidden.length_eq, hordered hidden hhidden⟩
  · obtain ⟨r, w, w', ha, hmode, hr, hgiven, hrelax, hvars, hrows, hnet, h⟩ := hf.exists_build
    obtain ⟨r', v, v', hb, hmode', hr', hgiven', hrelax', hvars', hrows', -, h'⟩ := hg.exists_build
    obtain ⟨hnetwork, hbox⟩ := hab.requests ha hb
    have hspans := Request.build_standard hs hrelax hgiven (ha.plan_standard hmode) hr hvars hrows
      ha.exists_mem_box h
    obtain ⟨-, -, -, -, hall⟩ :=
      Request.build_encloses hs.sound hgiven' (hb.plan_standard hmode') hr' hvars' hrows' h'
    rw [hnetwork, hbox] at hall
    rw [hnet]
    exact ⟨hspans.length_eq, hspans.within ha.exists_mem_box fun v hv => hall.has r.network.dropLast_relu hv⟩
  · obtain ⟨r, w, w', ha, hmode, hr, hgiven, hrelax, hvars, hrows, hnet, h⟩ := hf.exists_build
    obtain ⟨r', v, v', hb, hmode', hr', hgiven', hrelax', hvars', hrows', hnet', h'⟩ := hg.exists_build
    obtain ⟨hnetwork, hbox⟩ := hab.requests ha hb
    obtain ⟨range, hplan⟩ := ha.plan_output hmode
    obtain ⟨range', hplan'⟩ := hb.plan_output hmode'
    cases hrange.requests ha hb hnetwork hplan hplan'
    rw [hnet'] at hreach
    simp only [← hb.range_iff hplan'] at hreach
    obtain ⟨table', htable', -, hhas⟩ :=
      Request.build_ordered hs hgiven' hplan' hr' hvars' hrows' h' hreach
    obtain ⟨table, htable, hwidths, hspans, -⟩ :=
      Request.build_output hs hrelax hgiven hplan hr hvars hrows h
    -- both builds admit the same inputs
    have hadmitted : ∀ v, List.Forall₂ Interval.Has r'.box v ↔ List.Forall₂ Interval.Has r.box v :=
      fun v => iff_of_eq (congrArg (v ∈ ·) hbox)
    simp only [hnetwork, hadmitted] at hreach hhas
    rw [hnet]
    exact ⟨table, table', range, htable, htable', hwidths,
      (hspans hreach).within hreach fun v hv => hhas v hv.1 hv.2⟩

/-- The arguments for the absolute value with a range of the output from zero to one half. -/
def BuildArguments.absoluteBelow : BuildArguments Rat :=
  { BuildArguments.absolute "output" with
    outputUpper := some (.ok (.ofVector [1 / 2]))
    outputLower := some (.ok (.ofVector [0])) }

/-- The absolute value below one half, with relaxation and without it. -/
theorem tightened_bounds_ordered_absolute :
    ∃ f f' g g', (BuildArguments.absolute "standard").Formulates .ideal .standard false f ∧
      (BuildArguments.absolute "standard").Formulates .ideal .standard true f' ∧
      BuildArguments.absoluteBelow.Formulates .ideal .output false g ∧
      BuildArguments.absoluteBelow.Formulates .ideal .output true g' ∧
      (∃ hidden last table range, f.table = hidden ++ [last] ∧ g.table = table ++ [range] ∧
        List.Forall₂ (List.Forall₂ Interval.Within) hidden table) ∧
      List.Forall₂ (List.Forall₂ Interval.Within) f'.table f.table ∧
      ∃ table table' range, g.table = table ++ [range] ∧ g'.table = table' ++ [range] ∧
        List.Forall₂ (List.Forall₂ Interval.Within) table' table := by
  have hstandard : ∀ relax, Action.succeeds (formulateNetwork .ideal (some { Settings.default with relax := relax })
      (.absolute "standard")) (.ofModel (.empty "model")) = true := by decide +kernel
  have houtput : ∀ relax, Action.succeeds (formulateNetwork .ideal (some { Settings.default with relax := relax })
      .absoluteBelow) (.ofModel (.empty "model")) = true := by decide +kernel
  have hf : ∀ relax, ∃ f, (BuildArguments.absolute "standard").Formulates .ideal .standard relax f := by
    intro relax
    obtain ⟨f, w', h⟩ := Action.exists_of_succeeds (hstandard relax)
    exact ⟨f, _, _, w', by decide +kernel, rfl, rfl, rfl, rfl, rfl, h⟩
  have hg : ∀ relax, ∃ g, BuildArguments.absoluteBelow.Formulates .ideal .output relax g ∧
      g.network = .absolute := by
    intro relax
    obtain ⟨g, w', h⟩ := Action.exists_of_succeeds (houtput relax)
    have hg : BuildArguments.absoluteBelow.Formulates .ideal .output relax g :=
      ⟨_, _, w', by decide +kernel, rfl, rfl, rfl, rfl, rfl, h⟩
    obtain ⟨r, -, -, hasks, -, -, -, -, -, -, hnetwork, -⟩ := hg.exists_build
    exact ⟨g, hg, hnetwork.trans (Except.ok.inj hasks.network).symm⟩
  have hreach : ∃ v, BuildArguments.absoluteBelow.Admits .absolute v := by
    refine ⟨[0], liesBetween_single.2 ⟨0, rfl, by norm_num, by norm_num⟩, fun _ => ?_⟩
    refine liesBetween_single.2 ⟨0, by decide +kernel, by norm_num, by norm_num⟩
  obtain ⟨f, hf₀⟩ := hf false
  obtain ⟨f', hf₁⟩ := hf true
  obtain ⟨g, hg₀, hng⟩ := hg false
  obtain ⟨g', hg₁, hng'⟩ := hg true
  refine ⟨f, f', g, g', hf₀, hf₁, hg₀, hg₁, ?_, ?_, ?_⟩
  · obtain ⟨hmodes, -, -⟩ := tightened_bounds_ordered exact_ideal (f := f) (g := g)
      (⟨rfl, rfl, rfl⟩ : (BuildArguments.absolute "standard").SameBox .absoluteBelow)
    obtain ⟨hidden, last, table, range, hl, ht, -, hin⟩ := hmodes false hf₀ hg₀ (by rw [hng]; exact hreach)
    exact ⟨hidden, last, table, range, hl, ht, hin⟩
  · obtain ⟨-, hrelax, -⟩ := tightened_bounds_ordered exact_ideal (f := f) (g := f')
      (⟨rfl, rfl, rfl⟩ : (BuildArguments.absolute "standard").SameBox (.absolute "standard"))
    exact (hrelax hf₀ hf₁).2
  · obtain ⟨-, -, hrelax⟩ := tightened_bounds_ordered exact_ideal (f := g) (g := g')
      (⟨rfl, rfl, rfl⟩ : BuildArguments.absoluteBelow.SameBox .absoluteBelow)
    obtain ⟨table, table', range, hl, ht, -, hin⟩ :=
      hrelax ⟨rfl, rfl⟩ hg₀ hg₁ (by rw [hng']; exact hreach)
    exact ⟨table, table', range, hl, ht, hin⟩

end ReluMilp
