import ReluMilp.Proofs.Retightening

/-!
# Exchanges in a model

A build and a replacement touch the rows of a network only by exchanging those of one neuron after the
other.

* `Exchanges` — a body and a model after some exchanges; `Body.place?`, `Renewals` — the same where the new
  rows are named after their neuron, as in a build (`replaceUnits_renewals`, `retighten_renewals`,
  `Request.finish_renewals`); `Formulation.Replaced.names`, `Formulation.Replaced.exchanges` — a replacement;
* `Model.Adds.removeRows`, `Model.Adds.swap`, `Exchanges.adds` — what is added to a model stays exactly a
  body while its rows are exchanged;
* `Model.Spares` — a model in which some variables and rows of another one are left;
* `Body.Placed` — a network stands in a model, and all its rows speak of its variables only; one
  exchange keeps that (`Placed.swap`), and so does any number of them (`Placed.exchanges`);
* `formulateNetwork_placed`, `formulateNetwork_kept` — a network that is formulated is placed, with the
  bounds of its table, and nothing else was added.
-/

namespace ReluMilp

variable {α : Type} [Scalar α]

/-! ### Exchanges one after the other -/

/-- A body and a model after the rows of some neurons were exchanged, one neuron after the other. -/
inductive Exchanges (b : Body) (m : Model α) : Body → Model α → Prop
  | refl : Exchanges b m b m
  | step {b' : Body} {m' : Model α} {k i : Nat} {us : List HiddenUnit} {u : HiddenUnit}
      (t t' : String) (j : Interval α) : Exchanges b m b' m' → b'.hidden[k]? = some us → us[i]? = some u →
      Exchanges b m (b'.withUnit k i (u.moved m'.nextRow)) (m'.swap u t t' j)

/-! ### Exchanges of rows that are named after their neuron -/

theorem position?_natCast {n i : Nat} (h : i < n) : position? n (i : Int) = some i := by
  have hneg : ¬ (i : Int) < 0 := by omega
  unfold position?
  dsimp only
  rw [if_neg hneg, if_pos (by omega), Int.toNat_natCast]

/-- The place of the hidden neuron that two values name: its layer, counted from zero, and its number. -/
def Body.place? (b : Body) (layer neuron : Value) : Option (Nat × Nat) :=
  match layer.index?, neuron.index? with
  | some k, some j =>
    if 1 ≤ k then
      (position? ((b.hidden[(k - 1).toNat]?).getD []).length j).map fun i => ((k - 1).toNat, i)
    else none
  | _, _ => none

theorem Body.place?_eq_some {b : Body} {layer neuron : Value} {k i : Nat} :
    b.place? layer neuron = some (k, i) ↔ layer.index? = some ((k : Int) + 1) ∧
      ∃ j, neuron.index? = some j ∧ position? ((b.hidden[k]?).getD []).length j = some i := by
  unfold Body.place?
  constructor
  · intro h
    split at h
    · rename_i k' j hlayer hneuron
      split at h
      · rename_i hk
        obtain ⟨i', hi, heq⟩ := Option.map_eq_some_iff.1 h
        cases heq
        refine ⟨?_, j, hneuron, hi⟩
        rw [hlayer, Int.toNat_of_nonneg (by omega), Int.sub_add_cancel]
      · cases h
    · cases h
  · rintro ⟨hlayer, j, hneuron, hi⟩
    have hk : ((k : Int) + 1 - 1).toNat = k := by omega
    rw [hlayer, hneuron]
    dsimp only
    rw [if_pos (by omega), hk, hi]
    rfl

/-- A body and a model after exchanges that name the new rows after values for layer and neuron. -/
inductive Renewals (name : Value) (b : Body) (m : Model α) : Body → Model α → Prop
  | refl : Renewals name b m b m
  | step {b' : Body} {m' : Model α} {k i : Nat} {us : List HiddenUnit} {u : HiddenUnit}
      {layer neuron : Value} (j : Interval α) : Renewals name b m b' m' → b'.hidden[k]? = some us →
      us[i]? = some u → b'.place? layer neuron = some (k, i) →
      Renewals name b m (b'.withUnit k i (u.moved m'.nextRow))
        (m'.swap u (unitRowName name "relu_ub" layer neuron) (unitRowName name "relu_lb" layer neuron) j)

namespace Renewals

variable {name : Value} {b b₁ b₂ : Body} {m m₁ m₂ : Model α}

theorem trans (h₁ : Renewals name b m b₁ m₁) (h₂ : Renewals name b₁ m₁ b₂ m₂) :
    Renewals name b m b₂ m₂ := by
  induction h₂ with
  | refl => exact h₁
  | step j _ hk hi hplace ih => exact ih.step j hk hi hplace

theorem exchanges (h : Renewals name b m b₁ m₁) : Exchanges b m b₁ m₁ := by
  induction h with
  | refl => exact .refl
  | step j _ hk hi _ ih => exact ih.step _ _ j hk hi

/-- One exchange, with the neurons before and after it named. -/
theorem single (name : Value) (b : Body) (m : Model α) (pre uss : List (List HiddenUnit))
    (done us : List HiddenUnit) (u : HiddenUnit) (j : Interval α) :
    Renewals name (b.withHidden (pre ++ (done ++ u :: us) :: uss)) m
      (b.withHidden (pre ++ (done ++ u.moved m.nextRow :: us) :: uss))
      (m.swap u (unitRowName name "relu_ub" (indexValue (pre.length + 1)) (indexValue done.length))
        (unitRowName name "relu_lb" (indexValue (pre.length + 1)) (indexValue done.length)) j) := by
  have hk : (b.withHidden (pre ++ (done ++ u :: us) :: uss)).hidden[pre.length]? =
      some (done ++ u :: us) := getElem?_append_cons pre _ uss
  have hi : (done ++ u :: us)[done.length]? = some u := getElem?_append_cons done u us
  have hplace : (b.withHidden (pre ++ (done ++ u :: us) :: uss)).place?
      (indexValue (pre.length + 1)) (indexValue done.length) = some (pre.length, done.length) := by
    refine Body.place?_eq_some.2 ⟨by simp [indexValue, Value.index?], done.length, rfl, ?_⟩
    rw [hk]
    exact position?_natCast (by simp)
  have hstep : Renewals name _ m _ _ := Renewals.refl.step j hk hi hplace
  have hbody : (b.withHidden (pre ++ (done ++ u :: us) :: uss)).withUnit pre.length done.length
      (u.moved m.nextRow) = b.withHidden (pre ++ (done ++ u.moved m.nextRow :: us) :: uss) := by
    unfold Body.withUnit Body.withHidden
    dsimp only
    rw [modify_append]
  rw [hbody] at hstep
  exact hstep

end Renewals

theorem replaceUnits_renewals (b : Body) {name : Value} (pre uss : List (List HiddenUnit))
    (done : List HiddenUnit) {us us' : List HiddenUnit} {js : List (Interval α)} {w w' : Workspace α}
    (h : replaceUnits name (pre.length + 1) done.length us js w = .ok us' w') :
    Renewals name (b.withHidden (pre ++ (done ++ us) :: uss)) w.model
      (b.withHidden (pre ++ (done ++ us') :: uss)) w'.model := by
  induction us generalizing done js w us' with
  | nil =>
    obtain ⟨rfl, rfl⟩ := Action.pure_eq_ok.1 h
    exact .refl
  | cons u us ih =>
    cases js with
    | nil =>
      obtain ⟨rfl, rfl⟩ := Action.pure_eq_ok.1 h
      exact .refl
    | cons j js =>
      obtain ⟨u', w₁, hreplace, h⟩ := Action.bind_eq_ok.1 h
      obtain ⟨us₂, w₂, hrest, h⟩ := Action.bind_eq_ok.1 h
      obtain ⟨rfl, rfl⟩ := Action.pure_eq_ok.1 h
      obtain ⟨rfl, hw₁⟩ := replaceUnit_swaps hreplace
      have hfirst := Renewals.single name b w.model pre uss done us u j
      have hlater := ih (done ++ [u.moved w.model.nextRow]) (by rwa [List.length_append])
      rw [hw₁, List.append_assoc, List.append_assoc] at hlater
      exact hfirst.trans hlater

theorem retighten_renewals (b : Body) {solver : Solver α} {r : Request α} {prev : List VarId}
    {ls : List (Layer α)} (pre : List (List HiddenUnit)) {uss uss' : List (List HiddenUnit)}
    {iss iss' : List (List (Interval α))} {w w' : Workspace α}
    (h : retighten solver r (pre.length + 1) prev ls uss iss w = .ok (uss', iss') w') :
    Renewals r.name (b.withHidden (pre ++ uss)) w.model (b.withHidden (pre ++ uss')) w'.model := by
  induction ls generalizing prev pre uss uss' iss iss' w with
  | nil =>
    obtain ⟨heq, rfl⟩ := Action.pure_eq_ok.1 h
    cases heq
    exact .refl
  | cons l ls ih =>
    cases uss with
    | nil =>
      obtain ⟨heq, rfl⟩ := Action.pure_eq_ok.1 h
      cases heq
      exact .refl
    | cons us uss =>
    cases iss with
    | nil =>
      obtain ⟨heq, rfl⟩ := Action.pure_eq_ok.1 h
      cases heq
      exact .refl
    | cons is iss =>
      obtain ⟨js, w₁, us', w₂, uss₂, iss₂, htighten, -, hunits, hlater, heq⟩ := retighten_eq_ok.1 h
      cases heq
      have hlayer := replaceUnits_renewals b pre uss [] hunits
      rw [(tightenLayer_eq_ok htighten).1, List.nil_append, List.nil_append] at hlayer
      have hrest := ih (pre ++ [us']) (by rwa [List.length_append])
      rw [List.append_assoc, List.append_assoc] at hrest
      exact hlayer.trans hrest

/-- The last part of a build exchanges rows, if it does anything to the model. -/
theorem Request.finish_renewals {solver : Solver α} {r : Request α} {s : Assembled α}
    {f : Formulation α} {w w' : Workspace α} (h : r.finish solver s w = .ok f w') :
    f.network = r.network ∧ f.mode = r.plan.mode ∧ f.name = r.name ∧
      ∃ b, f.body? = some b ∧ Renewals r.name s.body w.model b w'.model := by
  unfold Request.finish at h
  cases hp : r.plan with
  | fast =>
    rw [hp] at h
    obtain ⟨rfl, rfl⟩ := Action.pure_eq_ok.1 h
    exact ⟨rfl, rfl, rfl, _, rfl, .refl⟩
  | standard =>
    rw [hp] at h
    obtain ⟨rfl, rfl⟩ := Action.pure_eq_ok.1 h
    exact ⟨rfl, rfl, rfl, _, rfl, .refl⟩
  | output range =>
    rw [hp] at h
    obtain ⟨⟨units, table⟩, v, hre, h⟩ := Action.bind_eq_ok.1 h
    obtain ⟨rfl, rfl⟩ := Action.pure_eq_ok.1 h
    exact ⟨rfl, rfl, rfl, _, rfl, retighten_renewals s.body [] hre⟩

omit [Scalar α] in
theorem hiddenPosition_eq_ok {f : Formulation α} {layer : Value} {k : Nat}
    (h : f.hiddenPosition layer = .ok k) (hwhole : ∃ a, layer.index? = some a) :
    layer.index? = some ((k : Int) + 1) := by
  obtain ⟨a, ha⟩ := hwhole
  have hposition : f.hiddenPosition layer = if 1 ≤ a ∧ a ≤ f.hidden.length then .ok (a - 1).toNat
      else .error (.parameter (.notHidden layer.asText)) := by
    cases layer with
    | bool _ | int _ =>
      cases ha
      rfl
    | null | real _ | text _ | list _ | record _ => cases ha
  rw [hposition] at h
  split at h
  · cases h
    rw [ha, Int.toNat_of_nonneg (by omega), Int.sub_add_cancel]
  · cases h

theorem neuronPosition_eq_ok {n i : Nat} {neuron : Value}
    (h : Formulation.neuronPosition n neuron = .ok i) :
    ∃ j, neuron.index? = some j ∧ position? n j = some i := by
  unfold Formulation.neuronPosition at h
  split at h
  · cases h
  · rename_i j hj
    refine ⟨j, hj, ?_⟩
    cases hp : position? n j with
    | none =>
      rw [hp] at h
      cases h
    | some i' =>
      rw [hp] at h
      cases h
      rfl

section Replaced

variable {f g : Formulation α} {c : Revision α} {m m' : Model α} {b : Body} {k i : Nat} {us : List HiddenUnit}
  {u : HiddenUnit} {j : Interval α}

/-- The values that a replacement is asked for with name the neuron whose rows are exchanged. -/
theorem Formulation.Replaced.names (h : f.Replaced c m b k i us u j g m') :
    b.place? c.layer c.neuron = some (k, i) := by
  obtain ⟨a, ha, hposition⟩ := neuronPosition_eq_ok h.neuron
  refine Body.place?_eq_some.2 ⟨hiddenPosition_eq_ok h.layer h.whole, a, ha, ?_⟩
  rw [h.units]
  exact hposition

/-- A replacement exchanges the rows of one neuron. -/
theorem Formulation.Replaced.exchanges (h : f.Replaced c m b k i us u j g m') :
    Exchanges b m (b.withUnit k i (u.moved m.nextRow)) m' := by
  rw [h.model]
  exact Exchanges.refl.step _ _ j h.units h.unit

end Replaced

/-! ### What was added to a model -/

section Adds

omit [Scalar α]

variable {m m₁ : Model α} {vars : List VarId} {rows rest : List RowId}

theorem Model.Grown.removeRows {vs : List (Variable α)} {rs : List (Row α)} {ids : List RowId}
    (h : m.Grown m₁ vs rs) (hm : m.WellFormed) (hids : ∀ id ∈ ids, m.nextRow ≤ id) :
    m.Grown (m₁.removeRows ids) vs (rs.filter fun r => !ids.contains r.id) where
  name := h.name
  parameters := h.parameters
  objective := h.objective
  vars := h.vars
  rows := by
    show m₁.rows.filter (fun r => !ids.contains r.id) = _
    have hkept : m.rows.filter (fun r => !ids.contains r.id) = m.rows :=
      filter_spared fun r hr hid => absurd (hids _ hid) (not_le.2 (hm.rows_lt r hr))
    rw [h.rows, List.filter_append, hkept]
  vars_nodup := h.vars_nodup
  rows_nodup := h.rows_nodup.sublist (List.filter_sublist.map _)
  vars_new := h.vars_new
  rows_new := fun r hr => h.rows_new r (List.mem_filter.1 hr).1
  terms_lt := fun r hr => h.terms_lt r (List.mem_filter.1 hr).1
  nextVar_le := h.nextVar_le
  nextRow_le := h.nextRow_le

/-- Rows that were added and are taken away again. -/
theorem Model.Adds.removeRows {ids : List RowId} (h : m.Adds m₁ vars rows) (hm : m.WellFormed)
    (hp : rows.Perm (ids ++ rest)) : m.Adds (m₁.removeRows ids) vars rest := by
  have hnodup := hp.nodup h.rows_nodup
  have hnew : ∀ id ∈ ids, m.nextRow ≤ id :=
    fun id hid => (h.rows_new (hp.mem_iff.2 (List.mem_append_left _ hid))).1
  obtain ⟨vs, rs, hg, hv, hr⟩ := h
  refine ⟨vs, _, hg.removeRows hm hnew, hv, ?_⟩
  have hfilter : (rs.filter fun r => !ids.contains r.id).map (·.id) =
      (rs.map (·.id)).filter fun id => !ids.contains id := by
    rw [List.filter_map]
    rfl
  have hids : ids.filter (fun id => !ids.contains id) = [] := filter_gone fun _ hid => hid
  have hrest : rest.filter (fun id => !ids.contains id) = rest :=
    filter_spared fun _ hid hmem => (List.nodup_append'.1 hnodup).2.2 hmem hid
  have hperm := (hr.trans hp).filter fun id => !ids.contains id
  rw [List.filter_append, hids, hrest, List.nil_append] at hperm
  rw [hfilter]
  exact hperm

end Adds

variable {m m₁ : Model α} {vars : List VarId} {rows rest : List RowId}

/-- What was added to a model stays that while the rows of one neuron among it are exchanged. -/
theorem Model.Adds.swap {u : HiddenUnit} (h : m.Adds m₁ vars rows) (hm : m.WellFormed)
    (hp : rows.Perm (u.rows ++ rest)) (hu : ∀ id ∈ u.vars, id < m₁.nextVar) (t t' : String)
    (j : Interval α) : m.Adds (m₁.swap u t t' j) vars ((u.moved m₁.nextRow).rows ++ rest) := by
  have hfirst : rows.Perm ([u.upperRow, u.lowerRow] ++ u.affineRow :: rest) :=
    hp.trans List.perm_middle.symm
  have hdrafts : ∀ d ∈ u.drafts t t' j, ∀ s ∈ d.terms, s.var < m₁.nextVar := by
    intro d hd s hs
    rcases List.mem_pair.1 hd with rfl | rfl
    · rcases List.mem_pair.1 hs with rfl | rfl
      · exact hu u.x List.mem_cons_self
      · exact hu u.z (List.mem_cons_of_mem _ (List.mem_cons_of_mem _ List.mem_cons_self))
    · rcases List.mem_pair.1 hs with rfl | rfl
      · exact hu u.s (List.mem_cons_of_mem _ List.mem_cons_self)
      · exact hu u.z (List.mem_cons_of_mem _ (List.mem_cons_of_mem _ List.mem_cons_self))
  have hadd := (h.removeRows hm hfirst).trans
    (adds_withRows (m₁.removeRows [u.upperRow, u.lowerRow]) (u.drafts t t' j) hdrafts)
  rw [List.append_nil] at hadd
  refine hadd.perm ?_
  show ((u.affineRow :: rest) ++ [m₁.nextRow, m₁.nextRow + 1]).Perm
    (u.affineRow :: ([m₁.nextRow, m₁.nextRow + 1] ++ rest))
  exact List.perm_append_comm.cons _

/-! ### Models that leave something alone -/

omit [Scalar α] in
/-- Variables and rows with some numbers are in the second model as they are in the first. -/
structure Model.Spares (m m' : Model α) (vars : List VarId) (rows : List RowId) : Prop where
  vars : ∀ v ∈ m.vars, v.id ∈ vars → v ∈ m'.vars
  rows : ∀ r ∈ m.rows, r.id ∈ rows → r ∈ m'.rows
  nextRow_le : m.nextRow ≤ m'.nextRow

omit [Scalar α] in
theorem Model.Adds.spares (h : m.Adds m₁ vars rows) (ids : List VarId) (kept : List RowId) :
    m.Spares m₁ ids kept := by
  obtain ⟨vs, rs, hg, -, -⟩ := h
  exact ⟨fun v hv _ => hg.keeps.vars v hv, fun r hr _ => hg.keeps.rows r hr List.not_mem_nil,
    hg.nextRow_le⟩

theorem spares_swap (m : Model α) (u : HiddenUnit) (t t' : String) (j : Interval α) (ids : List VarId)
    {kept : List RowId} (h : List.Disjoint [u.upperRow, u.lowerRow] kept) :
    m.Spares (m.swap u t t' j) ids kept :=
  ⟨fun _ hv _ => hv, fun r hr hid => (keeps_swap m u t t' j).rows r hr fun hmem => h hmem hid,
    Nat.le_add_right _ _⟩

omit [Scalar α] in
/-- Rows with some numbers are in a model and speak of some variables only. -/
def Model.RowsWithin (m : Model α) (rows : List RowId) (vars : List VarId) : Prop :=
  ∀ id ∈ rows, ∃ r ∈ m.rows, r.id = id ∧ ∀ t ∈ r.terms, t.var ∈ vars

omit [Scalar α] in
theorem Model.RowsWithin.spare {ids : List VarId} {kept : List RowId} (h : m.RowsWithin rows vars)
    (hs : m.Spares m₁ ids kept) (hrows : rows ⊆ kept) : m₁.RowsWithin rows vars := by
  intro id hid
  obtain ⟨r, hr, rfl, hterms⟩ := h id hid
  exact ⟨r, hs.rows r hr (hrows hid), rfl, hterms⟩

omit [Scalar α] in
theorem Model.RowsWithin.append {rows' : List RowId} (h : m.RowsWithin rows vars)
    (h' : m.RowsWithin rows' vars) : m.RowsWithin (rows ++ rows') vars :=
  fun id hid => (List.mem_append.1 hid).elim (h id) (h' id)

omit [Scalar α] in
theorem Model.RowsWithin.mono {vars' : List VarId} (h : m.RowsWithin rows vars) (hv : vars ⊆ vars') :
    m.RowsWithin rows vars' := by
  intro id hid
  obtain ⟨r, hr, hrid, hterms⟩ := h id hid
  exact ⟨r, hr, hrid, fun t ht => hv (hterms t ht)⟩

omit [Scalar α] in
/-- In a well-formed model a row with one of the numbers speaks of the variables only. -/
theorem Model.RowsWithin.terms {r : Row α} (h : m.RowsWithin rows vars) (hm : m.WellFormed)
    (hr : r ∈ m.rows) (hid : r.id ∈ rows) {t : Term α} (ht : t ∈ r.terms) : t.var ∈ vars := by
  obtain ⟨s, hs, hsid, hterms⟩ := h r.id hid
  rw [hm.eq_of_row_id hr hs hsid.symm] at ht
  exact hterms t ht

theorem rowsWithin_of_toRow {d : RowDraft α} {id : RowId} (hr : d.toRow id ∈ m.rows)
    (hd : ∀ t ∈ d.terms, t.var ∈ vars) : ∃ r ∈ m.rows, r.id = id ∧ ∀ t ∈ r.terms, t.var ∈ vars := by
  refine ⟨_, hr, rfl, fun t ht => ?_⟩
  obtain ⟨s, hs, hst⟩ := mem_terms_toRow ht
  rw [← hst]
  exact hd s hs

/-- Rows that are added behind others of the same block. -/
theorem rowsWithin_withRows (m : Model α) (front : List (RowDraft α)) {drafts : List (RowDraft α)}
    (h : ∀ d ∈ drafts, ∀ t ∈ d.terms, t.var ∈ vars) :
    (m.withRows (front ++ drafts)).RowsWithin
      (List.range' (m.nextRow + front.length) drafts.length) vars := by
  intro id hid
  obtain ⟨k, hk, rfl⟩ := List.mem_range'.1 hid
  rw [Nat.one_mul]
  have hget : (front ++ drafts)[front.length + k]? = some drafts[k] := by
    rw [List.getElem?_append_right (Nat.le_add_right _ _), Nat.add_sub_cancel_left,
      List.getElem?_eq_getElem hk]
  have hrow := mem_withRows m hget
  rw [← Nat.add_assoc] at hrow
  exact rowsWithin_of_toRow hrow (h _ (List.getElem_mem hk))

/-! ### Networks that stand beside others -/

theorem HiddenUnit.Stands.spare {u : HiddenUnit} {prev : List VarId} {n : Neuron α} {i : Interval α}
    (h : u.Stands m prev n i) (hs : m.Spares m₁ vars rows) (hv : u.vars ⊆ vars) (hr : u.rows ⊆ rows) :
    u.Stands m₁ prev n i where
  value := h.value.imp fun _ hx => hs.vars _ hx (hv List.mem_cons_self)
  slack := h.slack.imp fun _ hx => hs.vars _ hx (hv (List.mem_cons_of_mem _ List.mem_cons_self))
  switch := h.switch.imp fun _ hx => hs.vars _ hx
    (hv (List.mem_cons_of_mem _ (List.mem_cons_of_mem _ List.mem_cons_self)))
  upper := h.upper.imp fun _ hx => hs.rows _ hx (hr (List.mem_cons_of_mem _ List.mem_cons_self))
  lower := h.lower.imp fun _ hx => hs.rows _ hx
    (hr (List.mem_cons_of_mem _ (List.mem_cons_of_mem _ List.mem_cons_self)))
  affine := h.affine.imp fun _ hx => hs.rows _ hx (hr List.mem_cons_self)

section Parts

variable {b : Body} {u : HiddenUnit}

theorem mem_flatMap_units {uss : List (List HiddenUnit)} (hu : u ∈ uss.flatten) :
    u.vars ⊆ uss.flatMap Body.unitVars ∧ u.rows ⊆ uss.flatMap Body.unitRows := by
  obtain ⟨us, hus, hu⟩ := List.mem_flatten.1 hu
  constructor
  · exact fun id hid => List.mem_flatMap.2 ⟨us, hus, mem_unitVars_iff.2 ⟨u, hu, hid⟩⟩
  · exact fun id hid => List.mem_flatMap.2 ⟨us, hus, mem_unitRows_iff.2 ⟨u, hu, hid⟩⟩

theorem Body.inputs_subset (b : Body) : b.inputs ⊆ b.vars := by
  unfold Body.vars
  rw [List.append_assoc]
  exact List.subset_append_left _ _

theorem Body.outputs_subset (b : Body) : b.outputs ⊆ b.vars := List.subset_append_right _ _

theorem Body.unitVars_subset (b : Body) : b.hidden.flatMap Body.unitVars ⊆ b.vars := by
  unfold Body.vars
  exact List.Subset.trans (List.subset_append_right _ _) (List.subset_append_left _ _)

theorem Body.mem_rows {id : RowId} : id ∈ b.rows ↔
    id ∈ b.inputRows ∨ id ∈ b.hidden.flatMap Body.unitRows ∨ id ∈ b.outputRows ∨ id ∈ b.rangeRows := by
  unfold Body.rows
  simp only [List.mem_append, or_assoc]

end Parts

section Beside

variable {n : Network α} {b : Body} {table : List (List (Interval α))}

theorem Body.Stands.spare (h : b.Stands m n table) (hs : m.Spares m₁ b.vars b.rows) :
    b.Stands m₁ n table where
  inputs := fun id hid => (h.inputs id hid).imp fun _ hv => hs.vars _ hv (b.inputs_subset hid)
  inputs_length := h.inputs_length
  hidden := h.hidden.imp fun p n u i hu hst => by
    obtain ⟨hv, hr⟩ := mem_flatMap_units hu
    exact hst.spare hs (List.Subset.trans hv b.unitVars_subset) fun id hid =>
      Body.mem_rows.2 (.inr (.inl (hr hid)))
  outputs := fun id hid => (h.outputs id hid).imp fun _ hv => hs.vars _ hv (b.outputs_subset hid)
  output_rows := h.output_rows.imp_right fun n x row hrow hst => hst.imp fun _ hr =>
    hs.rows _ hr (Body.mem_rows.2 (.inr (.inr (.inl hrow))))
  vars_nodup := h.vars_nodup
  rows_nodup := h.rows_nodup
  rows_lt := fun id hid => (h.rows_lt id hid).trans_le hs.nextRow_le

/-- The rows of hidden neurons speak of their own variables and of those before them. -/
theorem rowsWithin_hidden {prev : List VarId} {ls : List (Layer α)} {uss : List (List HiddenUnit)}
    {iss : List (List (Interval α))} (h : Layerwise (HiddenUnit.Stands m) prev ls uss iss)
    (hprev : prev ⊆ vars) (hvars : uss.flatMap Body.unitVars ⊆ vars) :
    m.RowsWithin (uss.flatMap Body.unitRows) vars := by
  induction h with
  | nil => exact fun id hid => absurd hid List.not_mem_nil
  | @cons prev l us is ls uss iss hl _ ih =>
    rw [List.flatMap_cons] at hvars ⊢
    have hus : Body.unitVars us ⊆ vars := List.Subset.trans (List.subset_append_left _ _) hvars
    refine Model.RowsWithin.append (fun id hid => ?_)
      (ih (fun id hid => hus (mem_xs_unitVars hid))
        (List.Subset.trans (List.subset_append_right _ _) hvars))
    obtain ⟨u, hu, hid⟩ := mem_unitRows.1 hid
    have hmine : ∀ id ∈ u.vars, id ∈ vars := fun id hid => hus (mem_unitVars_iff.2 ⟨u, hu, hid⟩)
    have hx := hmine u.x List.mem_cons_self
    have hs := hmine u.s (List.mem_cons_of_mem _ List.mem_cons_self)
    have hz := hmine u.z (List.mem_cons_of_mem _ (List.mem_cons_of_mem _ List.mem_cons_self))
    obtain ⟨n, i, hst⟩ := hl.exists_of_mem hu
    rcases hid with rfl | rfl | rfl
    · obtain ⟨_, hr⟩ := hst.affine
      refine rowsWithin_of_toRow hr fun t ht => ?_
      rcases List.mem_cons.1 ht with rfl | ht
      · exact hx
      rcases List.mem_cons.1 ht with rfl | ht
      · exact hs
      · exact hprev (mem_negatedTerms ht)
    · obtain ⟨_, hr⟩ := hst.upper
      refine rowsWithin_of_toRow hr fun t ht => ?_
      rcases List.mem_pair.1 ht with rfl | rfl
      · exact hx
      · exact hz
    · obtain ⟨_, hr⟩ := hst.lower
      refine rowsWithin_of_toRow hr fun t ht => ?_
      rcases List.mem_pair.1 ht with rfl | rfl
      · exact hs
      · exact hz

/-- A network stands in a model; besides the rows of its neurons it has those that bound the inputs on both
sides and, with bounds on the output, those of the outputs. -/
structure Body.Placed (b : Body) (m : Model α) (n : Network α) (mode : Mode)
    (table : List (List (Interval α))) : Prop where
  stands : b.Stands m n table
  input_rows : m.RowsWithin b.inputRows b.inputs
  range_rows : m.RowsWithin b.rangeRows b.outputs
  input_count : b.inputRows.length = 2 * n.inputs
  range_count : b.rangeRows.length = if mode = .output then 2 * n.outputs else 0

namespace Body.Placed

variable {mode : Mode}

/-- The rows of a network speak of its variables only. -/
theorem within (h : b.Placed m n mode table) : m.RowsWithin b.rows b.vars := by
  refine .append (.append (.append ?_ ?_) ?_) ?_
  · exact h.input_rows.mono b.inputs_subset
  · exact rowsWithin_hidden h.stands.hidden b.inputs_subset b.unitVars_subset
  · intro id hid
    obtain ⟨n', x, hx, _, hr⟩ := h.stands.output_rows.exists_of_mem_right hid
    refine rowsWithin_of_toRow hr fun t ht => ?_
    rcases List.mem_cons.1 ht with rfl | ht
    · exact b.outputs_subset hx
    · have hlast := mem_lastVars (mem_negatedTerms ht)
      exact (List.mem_append.1 hlast).elim (fun hi => b.inputs_subset hi) fun hh => b.unitVars_subset hh
  · exact h.range_rows.mono b.outputs_subset

/-- A network is placed in every model that spares its variables and rows. -/
theorem spare (h : b.Placed m n mode table) (hs : m.Spares m₁ b.vars b.rows) :
    b.Placed m₁ n mode table where
  stands := h.stands.spare hs
  input_rows := h.input_rows.spare hs fun _ hid => Body.mem_rows.2 (.inl hid)
  range_rows := h.range_rows.spare hs fun _ hid => Body.mem_rows.2 (.inr (.inr (.inr hid)))
  input_count := h.input_count
  range_count := h.range_count

/-- The two rows of a hidden neuron are none that bounds inputs or outputs. -/
theorem disjoint_bounds {u : HiddenUnit} (h : b.Placed m n mode table) (hu : u ∈ b.hidden.flatten) :
    List.Disjoint [u.upperRow, u.lowerRow] b.inputRows ∧
      List.Disjoint [u.upperRow, u.lowerRow] b.rangeRows := by
  have hnodup := h.stands.rows_nodup
  unfold Body.rows at hnodup
  obtain ⟨hfront, -, hrange⟩ := List.nodup_append'.1 hnodup
  obtain ⟨-, -, hinput⟩ := List.nodup_append'.1 (List.nodup_append'.1 hfront).1
  have hunit : ∀ id ∈ [u.upperRow, u.lowerRow], id ∈ b.hidden.flatMap Body.unitRows :=
    fun id hid => (mem_flatMap_units hu).2 (List.mem_cons_of_mem _ hid)
  constructor
  · exact fun id hid hrow => hinput hrow (hunit id hid)
  · exact fun id hid hrow => hrange
      (List.mem_append_left _ (List.mem_append_right _ (hunit id hid))) hrow

/-- A network stays placed while the rows of one of its neurons are exchanged. -/
theorem swap {k i : Nat} {us : List HiddenUnit} {u : HiddenUnit} (h : b.Placed m n mode table)
    (hm : m.WellFormed) (hk : b.hidden[k]? = some us) (hi : us[i]? = some u) (t t' : String)
    (j : Interval α) :
    (b.withUnit k i (u.moved m.nextRow)).Placed (m.swap u t t' j) n mode
      (table.modify k fun is => is.set i j) ∧ (m.swap u t t' j).WellFormed := by
  have hu : u ∈ b.hidden.flatten :=
    List.mem_flatten.2 ⟨us, List.mem_of_getElem? hk, List.mem_of_getElem? hi⟩
  obtain ⟨hs, hm'⟩ := h.stands.swap hm hk hi t t' j
  obtain ⟨hinput, hrange⟩ := h.disjoint_bounds hu
  refine ⟨⟨hs, ?_, ?_, h.input_count, h.range_count⟩, hm'⟩
  · exact h.input_rows.spare (spares_swap m u t t' j [] hinput) (List.Subset.refl _)
  · exact h.range_rows.spare (spares_swap m u t t' j [] hrange) (List.Subset.refl _)

end Body.Placed

/-- A body is what was added to a model, also while the rows of its neurons are exchanged. -/
theorem Exchanges.placed {base : Model α} {b' : Body} {mode : Mode} (h : Exchanges b m b' m₁)
    (hbase : base.WellFormed) (hm : m.WellFormed) (hb : b.Placed m n mode table)
    (ha : base.Adds m b.vars b.rows) :
    m₁.WellFormed ∧ (∃ table', b'.Placed m₁ n mode table') ∧ base.Adds m₁ b'.vars b'.rows := by
  induction h with
  | refl => exact ⟨hm, ⟨table, hb⟩, ha⟩
  | @step b' m' k i us u t t' j _ hk hi ih =>
    obtain ⟨hm', ⟨table', hb'⟩, ha'⟩ := ih
    have hu : u ∈ b'.hidden.flatten :=
      List.mem_flatten.2 ⟨us, List.mem_of_getElem? hk, List.mem_of_getElem? hi⟩
    obtain ⟨p, n', d, hst⟩ := hb'.stands.hidden.exists_of_mem hu
    obtain ⟨hb'', hm''⟩ := hb'.swap hm' hk hi t t' j
    obtain ⟨rest, hp, hp'⟩ := rows_withUnit (u.moved m'.nextRow) hk hi
    refine ⟨hm'', ⟨_, hb''⟩, ?_⟩
    rw [vars_withUnit _ hk hi]
    exact (ha'.swap hbase hp (fun id hid => hst.vars_lt hm' hid) t t' j).perm hp'.symm

end Beside

/-! ### Formulated networks -/

section Builds

variable {r : Request α} {s : Assembled α} {stem : Stem α} {w w₁ w₂ w' : Workspace α}

theorem length_boundDrafts (t : String) (sense : Sense) {xs : List VarId} {bs : List α}
    (h : xs.length = bs.length) : (boundDrafts t sense xs bs).length = xs.length := by
  rw [boundDrafts, List.length_zipWith, length_elementNames, List.length_zip, ← h, min_self, min_self]

theorem Request.Assembles.placed {solver : Solver α} (h : r.Assembles solver s stem w w₁ w₂ w')
    (hr : r.WellFormed) : s.body.Placed w'.model r.network r.plan.mode s.table := by
  obtain ⟨t, ht⟩ := h.boxed
  obtain ⟨t', t'', ht'⟩ := h.finished
  have hin : s.body.inputs.length = r.box.length := by
    rw [h.inputs, List.length_range', hr.box_length]
  have hout : s.body.outputs.length = r.network.output.outputs := by
    rw [h.outputs, List.length_range']
    rfl
  refine ⟨h.stands hr, ?_, ?_, ?_, ?_⟩
  · have hterms : ∀ d ∈ r.boxDrafts s.body.inputs, ∀ u ∈ d.terms, u.var ∈ s.body.inputs :=
      fun d hd u hu => terms_boxDrafts hd hu
    have hrows := rowsWithin_withRows
      (w.model.withVars (elementNames t r.network.inputs) .continuous .negInf .posInf) [] hterms
    have hrows₁ : w₁.model.RowsWithin s.body.inputRows s.body.inputs := by
      rw [ht, h.input_rows]
      exact hrows
    have hspare := ((h.hidden_added hr).1.adds.trans (h.adds_outputs hr)).spares [] s.body.inputRows
    exact hrows₁.spare hspare (List.Subset.refl _)
  · have hterms : ∀ d ∈ r.rangeDrafts s.body.outputs, ∀ u ∈ d.terms, u.var ∈ s.body.outputs :=
      fun d hd u hu => terms_rangeDrafts hd hu
    have hrows := rowsWithin_withRows
      (w₂.model.withVars (elementNames t' r.network.outputs) .continuous .negInf .posInf)
      (outputDrafts t'' s.body.outputs r.network.output stem.last) hterms
    rw [length_outputDrafts hout] at hrows
    rw [ht', h.range_rows]
    exact hrows
  · rw [h.input_rows, List.length_range', boxDrafts, List.length_append,
      length_boundDrafts _ _ (by rw [List.length_map, hin]),
      length_boundDrafts _ _ (by rw [List.length_map, hin]), hin, hr.box_length, Nat.two_mul]
  · rw [h.range_rows, List.length_range']
    unfold rangeDrafts rangeBlocks
    cases hp : r.plan with
    | fast => rfl
    | standard => rfl
    | output range =>
      have hl : s.body.outputs.length = range.length := hout.trans (hr.range_length range hp).symm
      rw [List.flatMap_cons, List.flatMap_singleton, List.length_append,
        length_boundDrafts _ _ (by rw [List.length_map, hl]),
        length_boundDrafts _ _ (by rw [List.length_map, hl]), hout, ← Nat.two_mul]
      rfl

/-- A network that is built is placed in the model, and it is all that was added. -/
theorem Request.build_placed {solver : Solver α} {f : Formulation α} (hr : r.WellFormed)
    (hm : w.model.WellFormed) (h : r.build solver w = .ok f w') :
    f.network = r.network ∧ w'.model.WellFormed ∧ ∃ b table, f.body? = some b ∧
      b.Placed w'.model f.network f.mode table ∧ w.model.Adds w'.model b.vars b.rows := by
  rw [r.build_eq] at h
  obtain ⟨s, w₁, hs, h⟩ := Action.bind_eq_ok.1 h
  obtain ⟨stem, v, v', hass⟩ := assemble_eq_ok hs
  have hadds := hass.adds hr
  obtain ⟨hn, hmode, -, b, hb, hex⟩ := finish_renewals h
  obtain ⟨hm', ⟨table, hp⟩, ha⟩ := hex.exchanges.placed hm (hadds.wellFormed hm) (hass.placed hr) hadds
  rw [← hn, ← hmode] at hp
  exact ⟨hn, hm', b, table, hb, hp, ha⟩

/-- A network is formulated by the build of a well-formed request, on the model at hand with other
parameters. -/
theorem formulateNetwork_build {solver : Solver α} {settings : Option Settings} {a : BuildArguments α}
    {f : Formulation α} (hm : w.model.WellFormed) (ha : a.Faithful)
    (h : formulateNetwork solver settings a w = .ok f w') :
    ∃ (r : Request α) (w₀ : Workspace α), a.network = .ok r.network ∧ r.WellFormed ∧
      w₀.model.WellFormed ∧ w₀.model = { w.model with parameters := w₀.model.parameters } ∧
      r.build solver w₀ = .ok f w' := by
  obtain ⟨r, w₀, hreq, hw₀, h⟩ := formulateNetwork_eq_ok h
  have hasks := request_eq_ok hreq
  refine ⟨r, w₀, hasks.network, hasks.wellFormed ha, ?_, hw₀, h⟩
  rw [hw₀]
  exact Model.wellFormed_parameters hm _

omit [Scalar α] in
theorem Model.Adds.parameters_eq (h : m.Adds m₁ vars rows) : m₁.parameters = m.parameters := by
  obtain ⟨vs, rs, hg, -, -⟩ := h
  exact hg.parameters

/-- A network that is formulated is placed in the model, and it is all that was added; only the parameters
of the model may have changed besides. -/
theorem formulateNetwork_placed {solver : Solver α} {settings : Option Settings} {a : BuildArguments α}
    {f : Formulation α} (hm : w.model.WellFormed) (ha : a.Faithful)
    (h : formulateNetwork solver settings a w = .ok f w') :
    a.network = .ok f.network ∧ w'.model.WellFormed ∧ ∃ b table, f.body? = some b ∧
      b.Placed w'.model f.network f.mode table ∧
      { w.model with parameters := w'.model.parameters }.Adds w'.model b.vars b.rows := by
  obtain ⟨r, w₀, hnet, hr, hm₀, hw₀, h⟩ := formulateNetwork_build hm ha h
  obtain ⟨hn, hm', b, table, hb, hp, hadds⟩ := Request.build_placed hr hm₀ h
  rw [hadds.parameters_eq, ← hw₀, hn]
  rw [hn] at hp
  exact ⟨hnet, hm', b, table, hb, hp, hadds⟩

/-- A network that is formulated stands in the model with the bounds of its table. -/
theorem formulateNetwork_kept {solver : Solver α} {settings : Option Settings} {a : BuildArguments α}
    {f : Formulation α} (hm : w.model.WellFormed) (ha : a.Faithful)
    (h : formulateNetwork solver settings a w = .ok f w') :
    ∃ b table last, f.body? = some b ∧ f.table = table ++ [last] ∧
      b.Placed w'.model f.network f.mode table := by
  obtain ⟨-, -, b, _, hb, hp, -⟩ := formulateNetwork_placed hm ha h
  obtain ⟨r, w₀, -, hr, hm₀, -, h⟩ := formulateNetwork_build hm ha h
  rw [r.build_eq] at h
  obtain ⟨s, w₁, hs, h⟩ := Action.bind_eq_ok.1 h
  obtain ⟨stem, v, v', hass⟩ := assemble_eq_ok hs
  obtain ⟨hn, -, -, b', table, last, hb', htable, -, hstands⟩ :=
    Request.finish_stands ((hass.adds hr).wellFormed hm₀) (hass.stands hr) h
  rw [hb] at hb'
  cases hb'
  rw [← hn] at hstands
  exact ⟨b, table, last, hb, htable,
    ⟨hstands, hp.input_rows, hp.range_rows, hp.input_count, hp.range_count⟩⟩

end Builds

end ReluMilp
