import ReluMilp.Proofs.Replacing

/-!
# Networks beside other contents

A network is added to a model on new variables, and its rows speak of these alone. So the values of the new
variables in one feasible assignment may be joined with those of the old variables in another one. This is
how optima of a relaxed model bound a network even if the relaxation cuts off contents that were there
before: as long as what is optimal is feasible, the old variables have other values to take.

* `Model.Beside`, `Beside.splice` — a model with new variables and rows beside an old one, and joined
  assignments; `Beside.withVars`, `Beside.withRows`, `Beside.swap` — what is done to such models;
* `Solver.Covers` — what a solver gives for affine values bounds them wherever a model is feasible;
  `Solver.CoversBeside`, `Sound.coversBeside` — so it is on new variables;
* `addHidden_beside`, `Assembles.beside`, `replaceUnits_beside` — a network on the way of a build.
-/

namespace ReluMilp

/-! ### Old and new variables -/

section Beside

variable {α : Type}

/-- The variables and rows of a model are those of another one, and new ones: the new variables are of kinds that
do not vanish, and the new rows speak of new variables alone. -/
structure Model.Beside (base m : Model α) : Prop where
  nextVar_le : base.nextVar ≤ m.nextVar
  vars : ∀ v ∈ m.vars, v ∈ base.vars ∨ base.nextVar ≤ v.id ∧ v.kind.mayVanish = false
  rows : ∀ r ∈ m.rows, r ∈ base.rows ∨ ∀ t ∈ r.terms, base.nextVar ≤ t.var

namespace Model.Beside

variable {base m : Model α}

theorem refl (m : Model α) : m.Beside m := ⟨le_rfl, fun _ hv => .inl hv, fun _ hr => .inl hr⟩

theorem withVars (h : base.Beside m) (names : List String) {kind : VarKind} (lower upper : Limit α)
    (hkind : kind.mayVanish = false) : base.Beside (m.withVars names kind lower upper) := by
  refine ⟨h.nextVar_le.trans (Nat.le_add_right _ _), fun v hv => ?_, h.rows⟩
  rcases List.mem_append.1 hv with hv | hv
  · exact h.vars v hv
  · obtain ⟨k, t, -, rfl⟩ := mem_number.1 hv
    exact .inr ⟨h.nextVar_le.trans (Nat.le_add_right _ _), hkind⟩

theorem addVector {name : String} {n : Nat} {kind : VarKind} {lower upper : Limit α} {ids : List VarId}
    {w w' : Workspace α} (h : base.Beside w.model) (hkind : kind.mayVanish = false)
    (hadd : ReluMilp.addVector name n kind lower upper w = .ok ids w') :
    base.Beside w'.model ∧ ∀ id ∈ ids, base.nextVar ≤ id := by
  obtain ⟨hm, rfl⟩ := addVector_eq_ok hadd
  rw [hm]
  exact ⟨h.withVars _ _ _ hkind, fun id hid => h.nextVar_le.trans (List.mem_range'_1.1 hid).1⟩

theorem removeRows (h : base.Beside m) (ids : List RowId) : base.Beside (m.removeRows ids) :=
  ⟨h.nextVar_le, h.vars, fun r hr => h.rows r (mem_removeRows.1 hr).1⟩

variable [Scalar α]

theorem withRows (h : base.Beside m) {drafts : List (RowDraft α)}
    (hd : ∀ d ∈ drafts, ∀ t ∈ d.terms, base.nextVar ≤ t.var) : base.Beside (m.withRows drafts) := by
  refine ⟨h.nextVar_le, h.vars, fun r hr => ?_⟩
  rcases List.mem_append.1 hr with hr | hr
  · exact h.rows r hr
  · obtain ⟨k, d, hk, rfl⟩ := mem_number.1 hr
    refine .inr fun t ht => ?_
    obtain ⟨u, hu, hut⟩ := mem_terms_toRow ht
    rw [← hut]
    exact hd d (List.mem_of_getElem? hk) u hu

theorem swap {u : HiddenUnit} (h : base.Beside m) (hu : ∀ id ∈ u.vars, base.nextVar ≤ id) (t t' : String)
    (j : Interval α) : base.Beside (m.swap u t t' j) := by
  refine (h.removeRows _).withRows fun d hd s hs => hu _ ?_
  rcases List.mem_pair.1 hd with rfl | rfl
  · rcases List.mem_pair.1 hs with rfl | rfl
    · exact List.mem_cons_self
    · exact List.mem_cons_of_mem _ (List.mem_cons_of_mem _ List.mem_cons_self)
  · rcases List.mem_pair.1 hs with rfl | rfl
    · exact List.mem_cons_of_mem _ List.mem_cons_self
    · exact List.mem_cons_of_mem _ (List.mem_cons_of_mem _ List.mem_cons_self)

end Model.Beside

end Beside

namespace Model.Beside

variable {base m : Model Rat} {relax : Bool} {x y : Assignment Rat}

theorem not_gapped (h : base.Beside m) (hgap : ¬base.Gapped) : ¬m.Gapped := by
  rintro ⟨v, hv, hvanish, hout⟩
  rcases h.vars v hv with hold | ⟨-, hkind⟩
  · exact hgap ⟨v, hold, hvanish, hout⟩
  · rw [hvanish] at hkind
    cases hkind

/-- The old variables as in a feasible assignment of the relaxed model, the new ones as in one of the model
itself. -/
theorem splice (h : base.Beside m) (hbase : base.WellFormed) (hx : m.Feasible x)
    (hy : (m.loosened relax).Feasible y) :
    (m.loosened relax).Feasible fun id => if id < base.nextVar then y id else x id := by
  constructor
  · have hold := hy.1
    rw [m.loosened_vars, List.forall_mem_map] at hold ⊢
    intro v hv
    rw [v.loosened_id]
    dsimp only
    rcases h.vars v hv with hv' | ⟨hnew, hkind⟩
    · rw [if_pos (hbase.vars_lt v hv')]
      have hadmits := hold v hv
      rw [v.loosened_id] at hadmits
      exact hadmits
    · rw [if_neg (not_lt.2 hnew)]
      refine (hx.1 v hv).loosened fun _ hgapped => ?_
      rw [hgapped.1] at hkind
      cases hkind
  · intro r hr
    have hrow := hy.2 r hr
    rw [m.loosened_rows] at hr
    unfold Row.Holds at hrow ⊢
    rcases h.rows r hr with hr' | hnew
    · rw [termsValue_congr fun t ht => if_pos (hbase.terms_lt r hr' t ht)]
      exact hrow
    · rw [termsValue_congr fun t ht => if_neg (not_lt.2 (hnew t ht))]
      exact hx.2 r hr

end Model.Beside

/-! ### Optima that cover a model -/

/-- What a solver gives for affine values, on a model or on its relaxation, bounds them wherever the model
is feasible. -/
def Solver.Covers (solver : Solver Rat) (relax : Bool) (m : Model Rat) (prev : List VarId) : Prop :=
  ∀ (n : Neuron Rat) (o : Optima Rat) (x : Assignment Rat), o.From solver relax m prev n → m.Feasible x →
    o.Bounds (n.preactivation (prev.map x))

section Covers

variable {solver : Solver Rat} {relax : Bool} {base m : Model Rat} {prev : List VarId}

theorem Solver.Sound.covers_of_not_gapped (hs : solver.Sound) (hgap : relax = true → ¬m.Gapped) :
    solver.Covers relax m prev :=
  fun _ _ _ ho hx => ho.bounds hs (hx.loosened_of_not_gapped hgap)

theorem Solver.Sound.covers_of_unrelaxed (hs : solver.Sound) (hrelax : relax = false) :
    solver.Covers relax m prev := by
  refine hs.covers_of_not_gapped fun htrue => ?_
  rw [hrelax] at htrue
  cases htrue

/-- What a solver gives covers every model beside a given one, as far as new variables are concerned. -/
def Solver.CoversBeside (solver : Solver Rat) (relax : Bool) (base : Model Rat) : Prop :=
  ∀ ⦃m : Model Rat⦄ ⦃prev : List VarId⦄, base.Beside m → (∀ id ∈ prev, base.nextVar ≤ id) →
    solver.Covers relax m prev

/-- Where the relaxation may cut off old contents, it takes a solver whose optimal outcomes are feasible. -/
theorem Solver.Sound.coversBeside (hs : solver.Sound) (hbase : base.WellFormed)
    (hground : relax = true → base.Gapped → solver.Grounded) : solver.CoversBeside relax base := by
  intro m prev hm hprev n o x ho hx
  by_cases hgap : relax = true ∧ base.Gapped
  · rcases ho.exists_feasible (hground hgap.1 hgap.2) with rfl | ⟨y, hy⟩
    · exact ⟨nofun, nofun⟩
    · have hbounds := ho.bounds hs (hm.splice hbase hx hy)
      rw [List.map_congr_left fun id hid => if_neg (not_lt.2 (hprev id hid))] at hbounds
      exact hbounds
  · exact hs.covers_of_not_gapped (fun hrelax => hm.not_gapped fun hbad => hgap ⟨hrelax, hbad⟩) n o x ho hx

end Covers

/-! ### A network on the way of a build -/

section Builds

variable {α : Type} [Scalar α] {solver : Solver α} {r : Request α} {base : Model α} {prev : List VarId}
  {w w' : Workspace α}

/-- A hidden layer stands on new variables, and reads such variables. -/
theorem addHidden_beside {name : Value} {k : Nat} {l : Layer α} {is : List (Interval α)}
    {us : List HiddenUnit} (hw : base.Beside w.model) (hprev : ∀ id ∈ prev, base.nextVar ≤ id)
    (h : addHidden name k prev l is w = .ok us w') :
    base.Beside w'.model ∧ ∀ id ∈ us.map (·.x), base.nextVar ≤ id := by
  obtain ⟨xs, ss, zs, w₁, w₂, w₃, hax, has, haz, h₄, rfl⟩ := addHidden_eq_ok h
  obtain ⟨hw₁, hxs⟩ := hw.addVector rfl hax
  obtain ⟨hw₂, hss⟩ := hw₁.addVector rfl has
  obtain ⟨hw₃, hzs⟩ := hw₂.addVector rfl haz
  have hnew : ∀ id ∈ xs ++ ss ++ zs, base.nextVar ≤ id :=
    List.forall_mem_append.2 ⟨List.forall_mem_append.2 ⟨hxs, hss⟩, hzs⟩
  refine ⟨?_, List.forall_mem_map.2 fun u hu => ?_⟩
  · rw [h₄]
    exact hw₃.withRows (terms_unitDrafts (P := fun id => base.nextVar ≤ id) hnew hprev)
  · obtain ⟨i, hi⟩ := List.mem_iff_getElem?.1 hu
    exact hxs _ (List.mem_of_getElem? (getElem?_unitsFrom hi).1)

theorem buildHidden_beside {k : Nat} {rectified : Bool} {before : List (Interval α)} {ls : List (Layer α)}
    {stem : Stem α} (hw : base.Beside w.model) (hprev : ∀ id ∈ prev, base.nextVar ≤ id)
    (h : buildHidden solver r k prev rectified before ls w = .ok stem w') :
    base.Beside w'.model ∧ ∀ id ∈ stem.last, base.nextVar ≤ id := by
  induction ls generalizing k prev rectified before stem w with
  | nil =>
    obtain ⟨rfl, rfl⟩ := Action.pure_eq_ok.1 h
    exact ⟨hw, hprev⟩
  | cons l ls ih =>
    obtain ⟨is, us, rest, w₁, w₂, his, hus, hrest, rfl⟩ := buildHidden_cons h
    rw [← (layerBounds_eq_ok his).1] at hw
    obtain ⟨hw₂, hnext⟩ := addHidden_beside hw hprev hus
    obtain ⟨hw', hlast⟩ := ih hw₂ hnext hrest
    exact ⟨hw', hlast⟩

namespace Request.Assembles

variable {s : Assembled α} {stem : Stem α} {w₁ w₂ : Workspace α}

theorem inputs_new (h : r.Assembles solver s stem w w₁ w₂ w') :
    ∀ id ∈ s.body.inputs, w.model.nextVar ≤ id := fun _ hid => (h.adds_inputs.vars_new hid).1

/-- The inputs stand beside what was there before. -/
theorem beside_inputs (h : r.Assembles solver s stem w w₁ w₂ w') : w.model.Beside w₁.model := by
  obtain ⟨t, ht⟩ := h.boxed
  rw [ht]
  exact ((Model.Beside.refl _).withVars _ _ _ rfl).withRows fun d hd u hu =>
    h.inputs_new _ (terms_boxDrafts hd hu)

/-- So does the whole network. -/
theorem beside (h : r.Assembles solver s stem w w₁ w₂ w') : w.model.Beside w'.model := by
  obtain ⟨hw₂, hlast⟩ := buildHidden_beside h.beside_inputs h.inputs_new h.hidden
  have hout : ∀ id ∈ s.body.outputs, w.model.nextVar ≤ id := by
    intro id hid
    rw [h.outputs] at hid
    exact hw₂.nextVar_le.trans (List.mem_range'_1.1 hid).1
  obtain ⟨t, t', ht⟩ := h.finished
  rw [ht]
  refine (hw₂.withVars _ _ _ rfl).withRows fun d hd u hu => ?_
  rcases List.mem_append.1 hd with hd | hd
  · rcases List.mem_append.1 (terms_outputDrafts hd hu) with hid | hid
    · exact hout _ hid
    · exact hlast _ hid
  · exact hout _ (terms_rangeDrafts hd hu)

end Request.Assembles

/-- Exchanges of rows of new neurons keep a model beside the old one. -/
theorem replaceUnits_beside {name : Value} {k i : Nat} {us us' : List HiddenUnit} {js : List (Interval α)}
    (hw : base.Beside w.model) (hus : ∀ u ∈ us, ∀ id ∈ u.vars, base.nextVar ≤ id)
    (h : replaceUnits name k i us js w = .ok us' w') : base.Beside w'.model := by
  induction us generalizing i js w us' with
  | nil =>
    obtain ⟨-, rfl⟩ := Action.pure_eq_ok.1 h
    exact hw
  | cons u us ih =>
    cases js with
    | nil =>
      obtain ⟨-, rfl⟩ := Action.pure_eq_ok.1 h
      exact hw
    | cons j js =>
      obtain ⟨u', w₁, hreplace, h⟩ := Action.bind_eq_ok.1 h
      obtain ⟨us₂, w₂, hrest, h⟩ := Action.bind_eq_ok.1 h
      obtain ⟨-, rfl⟩ := Action.pure_eq_ok.1 h
      obtain ⟨-, t, t', hw₁⟩ := replaceUnit_eq_ok hreplace
      obtain ⟨hu, hus⟩ := List.forall_mem_cons.1 hus
      have hswap := hw.swap hu t t' j
      rw [← hw₁] at hswap
      exact ih hswap hus hrest

end Builds

end ReluMilp
