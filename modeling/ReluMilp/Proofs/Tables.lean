import ReluMilp.Proofs.Revisions

/-!
# Tables, units and rows in step

A formulation keeps its bounds in a table, the numbers of its rows with its units, and the rows themselves
are in the model. All of them change together.

* `Row.Reads` — what a row compares;
* `Model.inequalitiesOn` — the rows other than equations that speak of a variable;
* `HiddenUnit.InStep` — the rows of a neuron are those of an interval, there is one of each kind, and
  they are where its unit says;
* `Formulation.Kept.inStep` — every neuron is in step with the table;
* `Revisions.override`, `Revisions.comm` — of some replacements only the last for every neuron matters;
* `tables_inStep` — all of this after every build.
-/

namespace ReluMilp

open Scalar

/-! ### What a row reads -/

/-- A row compares a value that is linear in the variables with a number. -/
structure Row.Reads (r : Row Rat) (value : Assignment Rat → Rat) (sense : Sense) (rhs : Rat) : Prop where
  value : ∀ x, termsValue x r.terms = value x
  sense : r.sense = sense
  rhs : r.rhs = rhs

section Drafts

variable (name : String) (id : RowId) (a s z : VarId) (n : Neuron Rat) (prev : List VarId)

theorem reads_upper (u : Rat) : ((upperDraft name a z u).toRow id).Reads
    (fun x => x a + max 0 u * x z) .le (max 0 u) := by
  refine ⟨fun x => ?_, rfl, positivePart_eq_max u⟩
  rw [RowDraft.termsValue_toRow]
  show 1 * x a + (positivePart u * x z + 0) = _
  rw [positivePart_eq_max, one_mul, add_zero]

theorem reads_lower (l : Rat) : ((lowerDraft name s z l).toRow id).Reads
    (fun x => x s - max 0 (-l) * x z) .le 0 := by
  refine ⟨fun x => ?_, rfl, rfl⟩
  rw [RowDraft.termsValue_toRow]
  show 1 * x s + (-positivePart (-l) * x z + 0) = _
  rw [positivePart_eq_max, one_mul, add_zero, neg_mul, ← sub_eq_add_neg]

theorem reads_hidden : ((hiddenDraft name a s n prev).toRow id).Reads
    (fun x => x a - x s - dot n.weights (prev.map x)) .eq n.bias := by
  refine ⟨fun x => ?_, rfl, rfl⟩
  rw [RowDraft.termsValue_toRow]
  show 1 * x a + (-1 * x s + termsValue x (negatedTerms n prev)) = _
  rw [termsValue_negatedTerms]
  ring

theorem reads_output : ((outputDraft name a n prev).toRow id).Reads
    (fun x => x a - dot n.weights (prev.map x)) .eq n.bias := by
  refine ⟨fun x => ?_, rfl, rfl⟩
  rw [RowDraft.termsValue_toRow]
  show 1 * x a + termsValue x (negatedTerms n prev) = _
  rw [termsValue_negatedTerms]
  ring

end Drafts

/-- A row whose value depends on a variable speaks of it. -/
theorem Row.Reads.exists_term {r : Row Rat} {value : Assignment Rat → Rat} {sense : Sense} {rhs : Rat}
    (h : r.Reads value sense rhs) {v : VarId} {x y : Assignment Rat} (hxy : ∀ id ≠ v, x id = y id)
    (hne : value x ≠ value y) : ∃ t ∈ r.terms, t.var = v := by
  by_contra hnone
  refine hne ?_
  rw [← h.value x, ← h.value y]
  exact termsValue_congr fun t ht => hxy t.var fun hv => hnone ⟨t, ht, hv⟩

/-! ### One row of each kind -/

/-- The rows other than equations that speak of a variable. -/
def Model.inequalitiesOn (m : Model Rat) (v : VarId) : List (Row Rat) :=
  m.rows.filter fun r => r.sense ≠ .eq ∧ ∃ t ∈ r.terms, t.var = v

theorem mem_inequalitiesOn {m : Model Rat} {v : VarId} {r : Row Rat} :
    r ∈ m.inequalitiesOn v ↔ r ∈ m.rows ∧ r.sense ≠ .eq ∧ ∃ t ∈ r.terms, t.var = v := by
  unfold Model.inequalitiesOn
  rw [List.mem_filter, decide_eq_true_iff]

/-- A row that is the only one of its number among some is the only one of them. -/
theorem inequalitiesOn_eq_singleton {m : Model Rat} {v : VarId} {r : Row Rat} (hm : m.WellFormed)
    (hr : r ∈ m.inequalitiesOn v) (hall : ∀ s ∈ m.inequalitiesOn v, s.id = r.id) :
    m.inequalitiesOn v = [r] := by
  have hnodup : (m.inequalitiesOn v).Nodup :=
    (List.Nodup.of_map _ hm.rows_nodup).sublist List.filter_sublist
  have heq : ∀ s ∈ m.inequalitiesOn v, s = r := fun s hs =>
    hm.eq_of_row_id (mem_inequalitiesOn.1 hs).1 (mem_inequalitiesOn.1 hr).1 (hall s hs)
  refine List.perm_singleton.1 ((List.perm_ext_iff_of_nodup hnodup (List.nodup_singleton r)).2 ?_)
  intro s
  rw [List.mem_singleton]
  constructor
  · exact heq s
  · rintro rfl
    exact hr

/-- A neuron whose rows are those of an interval: there is exactly one upper row for its value and one lower
row for its slack, both are where the unit says and nothing else bounds its variables, and its affine row
is that of the neuron. -/
structure HiddenUnit.InStep (m : Model Rat) (prev : List VarId) (n : Neuron Rat) (u : HiddenUnit)
    (i : Interval Rat) : Prop where
  upper : ∃ r, m.inequalitiesOn u.x = [r] ∧ r.id = u.upperRow ∧
    r.Reads (fun x => x u.x + max 0 i.upper * x u.z) .le (max 0 i.upper)
  lower : ∃ r, m.inequalitiesOn u.s = [r] ∧ r.id = u.lowerRow ∧
    r.Reads (fun x => x u.s - max 0 (-i.lower) * x u.z) .le 0
  switch : ∀ r ∈ m.inequalitiesOn u.z, r.id = u.upperRow ∨ r.id = u.lowerRow
  affine : ∃ r ∈ m.rows, r.id = u.affineRow ∧
    r.Reads (fun x => x u.x - x u.s - dot n.weights (prev.map x)) .eq n.bias

/-- The affine row of an output neuron. -/
def OutputReads (m : Model Rat) (prev : List VarId) (n : Neuron Rat) (v : VarId) (row : RowId) : Prop :=
  ∃ r ∈ m.rows, r.id = row ∧ r.Reads (fun x => x v - dot n.weights (prev.map x)) .eq n.bias

/-! ### Variables of neurons -/

/-- A variable belongs to one neuron, and it is neither an input nor an output. -/
theorem Body.Stands.units_disjoint {m : Model Rat} {n : Network Rat} {b : Body}
    {table : List (List (Interval Rat))} (h : b.Stands m n table) {u : HiddenUnit}
    (hu : u ∈ b.hidden.flatten) : u.vars.Nodup ∧ List.Disjoint u.vars b.inputs ∧
      List.Disjoint u.vars b.outputs ∧ ∀ v ∈ b.hidden.flatten, v ≠ u → List.Disjoint v.vars u.vars := by
  have hnodup := h.vars_nodup
  unfold Body.vars at hnodup
  obtain ⟨hfront, -, hout⟩ := List.nodup_append'.1 hnodup
  obtain ⟨-, hhidden, hin⟩ := List.nodup_append'.1 hfront
  have hunits := (perm_flatMap_unitVars b.hidden).nodup hhidden
  have hmem : u.vars ⊆ b.hidden.flatMap Body.unitVars := (mem_flatMap_units hu).1
  refine ⟨(List.nodup_flatMap.1 hunits).1 u hu, ?_, ?_, ?_⟩
  · exact fun id hid hi => hin hi (hmem hid)
  · exact fun id hid ho => hout (List.mem_append_right _ (hmem hid)) ho
  · exact fun v hv hne => disjoint_of_nodup_flatMap hunits hu hv hne

/-! ### Formulations in step -/

section InStep

variable {f : Formulation Rat} {base m : Model Rat} {b : Body} {table : List (List (Interval Rat))}
  {last : List (Interval Rat)}

/-- In a model in which a formulation is all that was added, every row that speaks of one of its variables
is its own. -/
theorem Formulation.Kept.own_row {r : Row Rat} {t : Term Rat} (h : f.Kept base m b table last)
    (hbase : base.WellFormed) (hr : r ∈ m.rows) (ht : t ∈ r.terms) (hid : t.var ∈ b.vars) :
    r.id ∈ b.rows := by
  have hnew := (h.adds.vars_new hid).1
  obtain ⟨vs, rs, hg, -, hp⟩ := h.adds
  rw [hg.rows] at hr
  rcases List.mem_append.1 hr with hold | hown
  · exact absurd (hbase.terms_lt r hold t ht) (not_lt.2 hnew)
  · exact hp.mem_iff.1 (List.mem_map_of_mem hown)

/-- The row of a neuron that is not an equation speaks of its own variables only. -/
theorem HiddenUnit.Stands.inequality {v : HiddenUnit} {prev : List VarId} {n : Neuron Rat}
    {i : Interval Rat} {r : Row Rat} {t : Term Rat} (h : v.Stands m prev n i) (hm : m.WellFormed)
    (hr : r ∈ m.rows) (hid : r.id ∈ v.rows) (hsense : r.sense ≠ .eq) (ht : t ∈ r.terms) :
    r.id = v.upperRow ∧ (t.var = v.x ∨ t.var = v.z) ∨
      r.id = v.lowerRow ∧ (t.var = v.s ∨ t.var = v.z) := by
  obtain ⟨_, hu⟩ := h.upper
  obtain ⟨_, hl⟩ := h.lower
  obtain ⟨_, ha⟩ := h.affine
  rcases List.mem_cons.1 hid with hid | hid
  · rw [hm.eq_of_row_id hr ha hid] at hsense
    exact absurd rfl hsense
  rcases List.mem_pair.1 hid with hid | hid
  · refine .inl ⟨hid, ?_⟩
    rw [hm.eq_of_row_id hr hu hid] at ht
    obtain ⟨s, hs, hst⟩ := mem_terms_toRow ht
    rw [← hst]
    exact (List.mem_pair.1 hs).imp (fun h => by rw [h]) fun h => by rw [h]
  · refine .inr ⟨hid, ?_⟩
    rw [hm.eq_of_row_id hr hl hid] at ht
    obtain ⟨s, hs, hst⟩ := mem_terms_toRow ht
    rw [← hst]
    exact (List.mem_pair.1 hs).imp (fun h => by rw [h]) fun h => by rw [h]

/-- In a model in which a formulation is all that was added, an inequality that speaks of a variable of a
neuron is one of the two rows of that neuron. -/
theorem Formulation.Kept.inequality {u : HiddenUnit} {id : VarId} {r : Row Rat}
    (h : f.Kept base m b table last) (hbase : base.WellFormed) (hu : u ∈ b.hidden.flatten)
    (hid : id ∈ u.vars) (hr : r ∈ m.inequalitiesOn id) :
    r.id = u.upperRow ∧ (id = u.x ∨ id = u.z) ∨ r.id = u.lowerRow ∧ (id = u.s ∨ id = u.z) := by
  obtain ⟨hrow, hsense, t, ht, rfl⟩ := mem_inequalitiesOn.1 hr
  obtain ⟨-, hin, hout, hothers⟩ := h.placed.stands.units_disjoint hu
  have hwf := h.wellFormed
  have hmine : t.var ∈ b.vars := b.unitVars_subset ((mem_flatMap_units hu).1 hid)
  rcases Body.mem_rows.1 (h.own_row hbase hrow ht hmine) with hmem | hmem | hmem | hmem
  · exact absurd (h.placed.input_rows.terms hwf hrow hmem ht) (hin hid)
  · obtain ⟨us, hus, hmem⟩ := List.mem_flatMap.1 hmem
    obtain ⟨v, hv, hmem⟩ := mem_unitRows_iff.1 hmem
    have hv' : v ∈ b.hidden.flatten := List.mem_flatten.2 ⟨us, hus, hv⟩
    obtain ⟨p, n, i, hst⟩ := h.placed.stands.hidden.exists_of_mem hv'
    have hrows := hst.inequality hwf hrow hmem hsense ht
    -- the row speaks of a variable of both neurons, so that they are the same
    have hshared : t.var ∈ v.vars := by
      unfold HiddenUnit.vars
      rw [List.mem_cons, List.mem_pair]
      tauto
    have hvu : v = u := by
      by_contra hne
      exact hothers v hv' hne hshared hid
    rw [← hvu]
    exact hrows
  · obtain ⟨n, x, -, _, hs⟩ := h.placed.stands.output_rows.exists_of_mem_right hmem
    rw [hwf.eq_of_row_id hrow hs rfl] at hsense
    exact absurd rfl hsense
  · exact absurd (h.placed.range_rows.terms hwf hrow hmem ht) (hout hid)

/-- The assignment that is one at a variable. -/
def Assignment.unit (v : VarId) : Assignment Rat := fun id => if id = v then 1 else 0

/-- Every neuron is in step with the table. -/
theorem Formulation.Kept.inStep (h : f.Kept base m b table last) (hbase : base.WellFormed) :
    Layerwise (HiddenUnit.InStep m) b.inputs f.network.hidden b.hidden table := by
  refine h.placed.stands.hidden.imp fun p n u i hu hst => ?_
  obtain ⟨hnodup, -, -, -⟩ := h.placed.stands.units_disjoint hu
  have hx : u.x ∈ u.vars := List.mem_cons_self
  have hs : u.s ∈ u.vars := List.mem_cons_of_mem _ List.mem_cons_self
  have hz : u.z ∈ u.vars := List.mem_cons_of_mem _ (List.mem_cons_of_mem _ List.mem_cons_self)
  obtain ⟨hxs, hxz, hsz⟩ : u.x ≠ u.s ∧ u.x ≠ u.z ∧ u.s ≠ u.z := by
    simpa [HiddenUnit.vars, and_assoc] using hnodup
  obtain ⟨tu, hupper⟩ := hst.upper
  obtain ⟨tl, hlower⟩ := hst.lower
  obtain ⟨ta, haffine⟩ := hst.affine
  have hreads := reads_upper tu u.upperRow u.x u.z i.upper
  have hreads' := reads_lower tl u.lowerRow u.s u.z i.lower
  -- each of the two rows speaks of the variable that it bounds
  have hunit : ∀ v id : VarId, id ≠ v → (fun _ => 0 : Assignment Rat) id = Assignment.unit v id :=
    fun v id hid => (if_neg hid).symm
  have hmem : (upperDraft tu u.x u.z i.upper).toRow u.upperRow ∈ m.inequalitiesOn u.x := by
    refine mem_inequalitiesOn.2 ⟨hupper, by rw [hreads.sense]; decide, hreads.exists_term (hunit u.x) ?_⟩
    simp [Assignment.unit, hxz.symm]
  have hmem' : (lowerDraft tl u.s u.z i.lower).toRow u.lowerRow ∈ m.inequalitiesOn u.s := by
    refine mem_inequalitiesOn.2 ⟨hlower, by rw [hreads'.sense]; decide, hreads'.exists_term (hunit u.s) ?_⟩
    simp [Assignment.unit, hsz.symm]
  refine ⟨⟨_, ?_, rfl, hreads⟩, ⟨_, ?_, rfl, hreads'⟩, ?_, ⟨_, haffine, rfl, reads_hidden ..⟩⟩
  · refine inequalitiesOn_eq_singleton h.wellFormed hmem fun r hr => ?_
    rcases h.inequality hbase hu hx hr with ⟨hid, -⟩ | ⟨-, heq | heq⟩
    · exact hid
    · exact absurd heq hxs
    · exact absurd heq hxz
  · refine inequalitiesOn_eq_singleton h.wellFormed hmem' fun r hr => ?_
    rcases h.inequality hbase hu hs hr with ⟨-, heq | heq⟩ | ⟨hid, -⟩
    · exact absurd heq hxs.symm
    · exact absurd heq hsz
    · exact hid
  · intro r hr
    exact (h.inequality hbase hu hz hr).imp And.left And.left

/-- The rows of the outputs are the affine values of the last layer. -/
theorem Formulation.Kept.output_reads (h : f.Kept base m b table last) :
    Forall₃ (OutputReads m (lastVars b.inputs b.hidden)) f.network.output.neurons b.outputs
      b.outputRows :=
  h.placed.stands.output_rows.imp fun _ _ _ _ ⟨_, hr⟩ => ⟨_, hr, rfl, reads_output ..⟩

end InStep

/-! ### Builds and replacements -/

/-- Two formulations with the same bounds, in models with the same variables and, up to their order and
their numbers, the same rows. -/
structure Formulation.Alike (g : Formulation Rat) (m : Model Rat) (g' : Formulation Rat) (m' : Model Rat) :
    Prop where
  table : g'.table = g.table
  vars : m'.vars = m.vars
  rows : (m'.rows.map Row.content).Perm (m.rows.map Row.content)

section Runs

variable {f g g' : Formulation Rat} {base : Model Rat} {b : Body} {table : List (List (Interval Rat))}
  {last : List (Interval Rat)} {w v v' : Workspace Rat} {cs cs' : List (Revision Rat)}
  {c c' : Revision Rat}

/-- Only the last replacement of every neuron matters. -/
theorem Revisions.alike (h : f.Kept base w.model b table last) (hbase : base.WellFormed)
    (hrun : Revisions f w cs g v) (hrun' : Revisions f w cs' g' v')
    (hlast : ∀ p, f.lastAt? cs' p = f.lastAt? cs p) : g.Alike v.model g' v'.model := by
  obtain ⟨b₁, table₁, hg, hrev⟩ := hrun.revised h hbase
  obtain ⟨b₂, table₂, hg', hrev'⟩ := hrun'.revised h hbase
  exact ⟨hrev'.table_eq hrev hlast, hrev'.vars.trans hrev.vars.symm,
    hrev'.perm_rows hrev hg'.placed.stands.switches_nodup hg.placed.stands.switches_nodup hlast⟩

/-- The last replacement of a neuron wins. -/
theorem Revisions.override (h : f.Kept base w.model b table last) (hbase : base.WellFormed)
    (hrun : Revisions f w (cs ++ [c, c']) g v) (heq : f.place? c = f.place? c') :
    ∃ g' v', Revisions f w (cs ++ [c']) g' v' ∧ g.Alike v.model g' v'.model := by
  have hsub : cs ++ [c'] ⊆ cs ++ [c, c'] := by simp
  obtain ⟨g', v', hrun'⟩ := hrun.replay hsub
  exact ⟨g', v', hrun', hrun.alike h hbase hrun' fun p => (lastAt?_override heq p).symm⟩

/-- Replacements for different neurons commute. -/
theorem Revisions.comm (h : f.Kept base w.model b table last) (hbase : base.WellFormed)
    (hrun : Revisions f w (cs ++ [c, c']) g v) (hne : f.place? c ≠ f.place? c') :
    ∃ g' v', Revisions f w (cs ++ [c', c]) g' v' ∧ g.Alike v.model g' v'.model := by
  have hsub : cs ++ [c', c] ⊆ cs ++ [c, c'] := by simp
  obtain ⟨g', v', hrun'⟩ := hrun.replay hsub
  exact ⟨g', v', hrun', hrun.alike h hbase hrun' fun p => (lastAt?_comm hne p).symm⟩

end Runs

/-- Other bounds for the last neuron of the first layer. -/
def Revision.last (upper lower : Rat) : Revision Rat :=
  ⟨.int 1, .int (-1), ⟨.ok upper, .ok (.ofVector [upper]), .ok upper⟩,
    ⟨.ok lower, .ok (.ofVector [lower]), .ok lower⟩⟩

theorem Revision.faithful_last (upper lower : Rat) :
    (last upper lower).upper.Faithful ∧ (last upper lower).lower.Faithful :=
  ⟨fun _ h => h, fun _ h => h⟩

end ReluMilp
