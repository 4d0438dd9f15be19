import ReluMilp.Proofs.Actions
import ReluMilp.Proofs.Linear
import Mathlib.Data.List.Nodup
import Mathlib.Data.List.Perm.Basic

/-!
# What a model contains

* `Model.WellFormed` — numbers of variables and rows are below the counters and used once, and rows
  speak of variables that were created; `wellFormed_empty`, and one lemma for every operation;
* `Model.Grown` — a model with more variables and rows behind those it had, all of them with new
  numbers; `Grown.trans`, `Grown.wellFormed`, `grown_withVars`, `grown_withRows`.
-/

namespace ReluMilp

/-! ### Numbered items -/

section Numbered

variable {β γ : Type}

theorem number_eq_mapIdx (f : Nat → β → γ) (k : Nat) (bs : List β) :
    number f k bs = bs.mapIdx fun i b => f (k + i) b := by
  induction bs generalizing k with
  | nil => rfl
  | cons b bs ih =>
    rw [number, ih, List.mapIdx_cons, Nat.add_zero]
    congr 1
    apply List.mapIdx_eq_mapIdx_iff.2
    intro i _
    rw [Nat.add_right_comm, Nat.add_assoc]

@[simp] theorem length_number (f : Nat → β → γ) (k : Nat) (bs : List β) :
    (number f k bs).length = bs.length := by
  rw [number_eq_mapIdx, List.length_mapIdx]

theorem getElem?_number (f : Nat → β → γ) (k : Nat) (bs : List β) (i : Nat) :
    (number f k bs)[i]? = bs[i]?.map (f (k + i)) := by
  rw [number_eq_mapIdx, List.getElem?_mapIdx]

theorem mem_number {f : Nat → β → γ} {k : Nat} {bs : List β} {c : γ} :
    c ∈ number f k bs ↔ ∃ i b, bs[i]? = some b ∧ f (k + i) b = c := by
  rw [List.mem_iff_getElem?]
  simp only [getElem?_number, Option.map_eq_some_iff]

/-- Numbers given from `k` on. -/
theorem map_number {δ : Type} (g : γ → δ) (f : Nat → β → γ) (k : Nat) (bs : List β) :
    (number f k bs).map g = number (fun i b => g (f i b)) k bs := by
  induction bs generalizing k with
  | nil => rfl
  | cons b bs ih => rw [number, List.map_cons, ih, number]

/-- Numbered items of which only a part is looked at. -/
theorem number_map {δ : Type} (f : Nat → γ → δ) (g : β → γ) (k : Nat) (bs : List β) :
    number f k (bs.map g) = number (fun i b => f i (g b)) k bs := by
  induction bs generalizing k with
  | nil => rfl
  | cons b bs ih => rw [number, List.map_cons, number, ih]

theorem number_offset (m k : Nat) (bs : List β) :
    number (fun i _ => m + i) k bs = List.range' (m + k) bs.length := by
  induction bs generalizing k with
  | nil => rfl
  | cons b bs ih => rw [number, ih, List.length_cons, List.range'_succ, Nat.add_assoc]

/-- Numbers below a bound and numbers from it on. -/
theorem nodup_append_of_lt {ids ids' : List Nat} {k : Nat} (h : ids.Nodup) (h' : ids'.Nodup)
    (hlt : ∀ i ∈ ids, i < k) (hle : ∀ i ∈ ids', k ≤ i) : (ids ++ ids').Nodup := by
  apply List.Nodup.append h h'
  intro i hi hi'
  exact absurd (hlt i hi) (not_lt.2 (hle i hi'))

end Numbered

variable {α : Type}

/-! ### Well-formed models -/

/-- Numbers are below the counters and used once, and rows speak of variables that were created. -/
structure Model.WellFormed (m : Model α) : Prop where
  vars_lt : ∀ v ∈ m.vars, v.id < m.nextVar
  rows_lt : ∀ r ∈ m.rows, r.id < m.nextRow
  vars_nodup : (m.vars.map (·.id)).Nodup
  rows_nodup : (m.rows.map (·.id)).Nodup
  terms_lt : ∀ r ∈ m.rows, ∀ t ∈ r.terms, t.var < m.nextVar

namespace Model.WellFormed

variable {m : Model α}

/-- A number belongs to one variable. -/
theorem eq_of_var_id (h : m.WellFormed) {u v : Variable α} (hu : u ∈ m.vars) (hv : v ∈ m.vars)
    (huv : u.id = v.id) : u = v :=
  List.inj_on_of_nodup_map h.vars_nodup hu hv huv

/-- A number belongs to one row. -/
theorem eq_of_row_id (h : m.WellFormed) {r s : Row α} (hr : r ∈ m.rows) (hs : s ∈ m.rows)
    (hrs : r.id = s.id) : r = s :=
  List.inj_on_of_nodup_map h.rows_nodup hr hs hrs

end Model.WellFormed

section Operations

theorem Model.wellFormed_parameters {m : Model α} (h : m.WellFormed) (p : Parameters) :
    { m with parameters := p }.WellFormed :=
  ⟨h.vars_lt, h.rows_lt, h.vars_nodup, h.rows_nodup, h.terms_lt⟩

theorem Model.wellFormed_objective {m : Model α} (h : m.WellFormed) (o : Objective α) :
    { m with objective := o }.WellFormed :=
  ⟨h.vars_lt, h.rows_lt, h.vars_nodup, h.rows_nodup, h.terms_lt⟩

/-- Other kinds and bounds for the variables. -/
theorem Model.wellFormed_vars {m : Model α} (h : m.WellFormed) {vs : List (Variable α)}
    (hvs : vs.map (·.id) = m.vars.map (·.id)) : { m with vars := vs }.WellFormed := by
  refine ⟨?_, h.rows_lt, ?_, h.rows_nodup, h.terms_lt⟩
  · intro v hv
    have hmem : v.id ∈ m.vars.map (·.id) := by
      rw [← hvs]
      exact List.mem_map_of_mem hv
    obtain ⟨u, hu, huv⟩ := List.mem_map.1 hmem
    show v.id < m.nextVar
    rw [← huv]
    exact h.vars_lt u hu
  · show (vs.map (·.id)).Nodup
    rw [hvs]
    exact h.vars_nodup

theorem Model.wellFormed_removeRows {m : Model α} (h : m.WellFormed) (ids : List RowId) :
    (m.removeRows ids).WellFormed := by
  refine ⟨h.vars_lt, ?_, h.vars_nodup, ?_, ?_⟩
  · intro r hr
    exact h.rows_lt r (List.mem_filter.1 hr).1
  · exact h.rows_nodup.sublist (List.filter_sublist.map _)
  · intro r hr
    exact h.terms_lt r (List.mem_filter.1 hr).1

theorem Model.wellFormed_removeVars {m : Model α} (h : m.WellFormed) (ids : List VarId) :
    (m.removeVars ids).WellFormed := by
  refine ⟨?_, ?_, ?_, ?_, ?_⟩
  · intro v hv
    exact h.vars_lt v (List.mem_filter.1 hv).1
  · intro r hr
    obtain ⟨s, hs, rfl⟩ := List.mem_map.1 hr
    exact h.rows_lt s hs
  · exact h.vars_nodup.sublist (List.filter_sublist.map _)
  · show ((m.rows.map fun r => { r with terms := Model.dropTerms ids r.terms }).map (·.id)).Nodup
    rw [List.map_map]
    exact h.rows_nodup
  · intro r hr t ht
    obtain ⟨s, hs, rfl⟩ := List.mem_map.1 hr
    exact h.terms_lt s hs t (List.mem_filter.1 ht).1

/-- A variable with the bounds that a list pairs with its number. -/
def Variable.rebound (bounds : List (VarId × Limit α × Limit α)) (v : Variable α) : Variable α :=
  match bounds.lookup v.id with
  | some (lower, upper) => { v with lower := lower, upper := upper }
  | none => v

theorem Variable.rebound_id (bounds : List (VarId × Limit α × Limit α)) (v : Variable α) :
    (v.rebound bounds).id = v.id := by
  unfold rebound
  cases bounds.lookup v.id <;> rfl

theorem setBounds_vars (m : Model α) (bounds : List (VarId × Limit α × Limit α)) :
    (m.setBounds bounds).vars = m.vars.map (Variable.rebound bounds) := rfl

theorem map_id_setBounds (m : Model α) (bounds : List (VarId × Limit α × Limit α)) :
    (m.setBounds bounds).vars.map (·.id) = m.vars.map (·.id) := by
  rw [setBounds_vars, List.map_map]
  exact List.map_congr_left fun v _ => v.rebound_id bounds

theorem Model.wellFormed_setBounds {m : Model α} (h : m.WellFormed)
    (bounds : List (VarId × Limit α × Limit α)) : (m.setBounds bounds).WellFormed :=
  wellFormed_vars h (map_id_setBounds m bounds)

theorem Model.wellFormed_relaxed {m : Model α} (h : m.WellFormed) : m.relaxed.WellFormed :=
  wellFormed_vars h (by rw [List.map_map]; rfl)

/-- A model without variables and rows is well-formed. -/
theorem Model.wellFormed_of_nil {m : Model α} (hvars : m.vars = []) (hrows : m.rows = []) :
    m.WellFormed := by
  refine ⟨?_, ?_, ?_, ?_, ?_⟩
  · simp [hvars]
  · simp [hrows]
  · simp [hvars]
  · simp [hrows]
  · simp [hrows]

theorem Model.wellFormed_empty [Scalar α] (name : String) : (Model.empty name : Model α).WellFormed :=
  wellFormed_of_nil rfl rfl

end Operations

/-! ### Growth -/

/-- A model with variables `vs` and rows `rs` behind those it had, all with new numbers. -/
structure Model.Grown (m m' : Model α) (vs : List (Variable α)) (rs : List (Row α)) : Prop where
  name : m'.name = m.name
  parameters : m'.parameters = m.parameters
  objective : m'.objective = m.objective
  vars : m'.vars = m.vars ++ vs
  rows : m'.rows = m.rows ++ rs
  vars_nodup : (vs.map (·.id)).Nodup
  rows_nodup : (rs.map (·.id)).Nodup
  vars_new : ∀ v ∈ vs, m.nextVar ≤ v.id ∧ v.id < m'.nextVar
  rows_new : ∀ r ∈ rs, m.nextRow ≤ r.id ∧ r.id < m'.nextRow
  terms_lt : ∀ r ∈ rs, ∀ t ∈ r.terms, t.var < m'.nextVar
  nextVar_le : m.nextVar ≤ m'.nextVar
  nextRow_le : m.nextRow ≤ m'.nextRow

namespace Model.Grown

variable {m m₁ m₂ : Model α} {vs vs₁ vs₂ : List (Variable α)} {rs rs₁ rs₂ : List (Row α)}

theorem refl (m : Model α) : m.Grown m [] [] :=
  ⟨rfl, rfl, rfl, (List.append_nil _).symm, (List.append_nil _).symm, List.nodup_nil, List.nodup_nil,
    fun _ hv => absurd hv List.not_mem_nil, fun _ hr => absurd hr List.not_mem_nil,
    fun _ hr => absurd hr List.not_mem_nil, le_rfl, le_rfl⟩

theorem trans (h₁ : m.Grown m₁ vs₁ rs₁) (h₂ : m₁.Grown m₂ vs₂ rs₂) :
    m.Grown m₂ (vs₁ ++ vs₂) (rs₁ ++ rs₂) where
  name := h₂.name.trans h₁.name
  parameters := h₂.parameters.trans h₁.parameters
  objective := h₂.objective.trans h₁.objective
  vars := by rw [h₂.vars, h₁.vars, List.append_assoc]
  rows := by rw [h₂.rows, h₁.rows, List.append_assoc]
  vars_nodup := by
    rw [List.map_append]
    exact nodup_append_of_lt h₁.vars_nodup h₂.vars_nodup
      (List.forall_mem_map.2 fun v hv => (h₁.vars_new v hv).2)
      (List.forall_mem_map.2 fun v hv => (h₂.vars_new v hv).1)
  rows_nodup := by
    rw [List.map_append]
    exact nodup_append_of_lt h₁.rows_nodup h₂.rows_nodup
      (List.forall_mem_map.2 fun r hr => (h₁.rows_new r hr).2)
      (List.forall_mem_map.2 fun r hr => (h₂.rows_new r hr).1)
  vars_new := by
    intro v hv
    rcases List.mem_append.1 hv with hv | hv
    · have h := h₁.vars_new v hv
      exact ⟨h.1, h.2.trans_le h₂.nextVar_le⟩
    · have h := h₂.vars_new v hv
      exact ⟨h₁.nextVar_le.trans h.1, h.2⟩
  rows_new := by
    intro r hr
    rcases List.mem_append.1 hr with hr | hr
    · have h := h₁.rows_new r hr
      exact ⟨h.1, h.2.trans_le h₂.nextRow_le⟩
    · have h := h₂.rows_new r hr
      exact ⟨h₁.nextRow_le.trans h.1, h.2⟩
  terms_lt := by
    intro r hr t ht
    rcases List.mem_append.1 hr with hr | hr
    · exact (h₁.terms_lt r hr t ht).trans_le h₂.nextVar_le
    · exact h₂.terms_lt r hr t ht
  nextVar_le := h₁.nextVar_le.trans h₂.nextVar_le
  nextRow_le := h₁.nextRow_le.trans h₂.nextRow_le

theorem wellFormed (h : m.Grown m₁ vs rs) (hm : m.WellFormed) : m₁.WellFormed where
  vars_lt := by
    intro v hv
    rw [h.vars] at hv
    rcases List.mem_append.1 hv with hv | hv
    · exact (hm.vars_lt v hv).trans_le h.nextVar_le
    · exact (h.vars_new v hv).2
  rows_lt := by
    intro r hr
    rw [h.rows] at hr
    rcases List.mem_append.1 hr with hr | hr
    · exact (hm.rows_lt r hr).trans_le h.nextRow_le
    · exact (h.rows_new r hr).2
  vars_nodup := by
    rw [h.vars, List.map_append]
    exact nodup_append_of_lt hm.vars_nodup h.vars_nodup (List.forall_mem_map.2 hm.vars_lt)
      (List.forall_mem_map.2 fun v hv => (h.vars_new v hv).1)
  rows_nodup := by
    rw [h.rows, List.map_append]
    exact nodup_append_of_lt hm.rows_nodup h.rows_nodup (List.forall_mem_map.2 hm.rows_lt)
      (List.forall_mem_map.2 fun r hr => (h.rows_new r hr).1)
  terms_lt := by
    intro r hr t ht
    rw [h.rows] at hr
    rcases List.mem_append.1 hr with hr | hr
    · exact (hm.terms_lt r hr t ht).trans_le h.nextVar_le
    · exact h.terms_lt r hr t ht

end Model.Grown

variable [Scalar α]

/-- The variables that `Model.withVars` adds. -/
def Model.newVars (m : Model α) (names : List String) (kind : VarKind) (lower upper : Limit α) :
    List (Variable α) :=
  number (fun k name =>
    ⟨m.nextVar + k, nameOrNumber "C" (m.nextVar + k) name, kind, lower, upper⟩) 0 names

/-- The rows that `Model.withRows` adds. -/
def Model.newRows (m : Model α) (drafts : List (RowDraft α)) : List (Row α) :=
  number (fun k d => RowDraft.toRow (m.nextRow + k) d) 0 drafts

omit [Scalar α] in
theorem map_id_newVars (m : Model α) (names : List String) (kind : VarKind) (lower upper : Limit α) :
    (m.newVars names kind lower upper).map (·.id) = List.range' m.nextVar names.length := by
  rw [Model.newVars, map_number]
  exact number_offset m.nextVar 0 names

theorem map_id_newRows (m : Model α) (drafts : List (RowDraft α)) :
    (m.newRows drafts).map (·.id) = List.range' m.nextRow drafts.length := by
  rw [Model.newRows, map_number]
  exact number_offset m.nextRow 0 drafts

omit [Scalar α] in
theorem grown_withVars (m : Model α) (names : List String) (kind : VarKind) (lower upper : Limit α) :
    m.Grown (m.withVars names kind lower upper) (m.newVars names kind lower upper) [] where
  name := rfl
  parameters := rfl
  objective := rfl
  vars := rfl
  rows := (List.append_nil _).symm
  vars_nodup := by
    rw [map_id_newVars]
    exact List.nodup_range'
  rows_nodup := List.nodup_nil
  vars_new := by
    intro v hv
    have h : v.id ∈ List.range' m.nextVar names.length := by
      rw [← map_id_newVars m names kind lower upper]
      exact List.mem_map_of_mem hv
    exact List.mem_range'_1.1 h
  rows_new := fun _ hr => absurd hr List.not_mem_nil
  terms_lt := fun _ hr => absurd hr List.not_mem_nil
  nextVar_le := Nat.le_add_right _ _
  nextRow_le := le_rfl

/-- The terms of a row are those of its draft. -/
theorem mem_terms_toRow {d : RowDraft α} {id : RowId} {t : Term α} (h : t ∈ (d.toRow id).terms) :
    ∃ u ∈ d.terms, u.var = t.var :=
  mem_collect (List.mem_filter.1 h).1

theorem grown_withRows (m : Model α) (drafts : List (RowDraft α))
    (h : ∀ d ∈ drafts, ∀ t ∈ d.terms, t.var < m.nextVar) :
    m.Grown (m.withRows drafts) [] (m.newRows drafts) where
  name := rfl
  parameters := rfl
  objective := rfl
  vars := (List.append_nil _).symm
  rows := rfl
  vars_nodup := List.nodup_nil
  rows_nodup := by
    rw [map_id_newRows]
    exact List.nodup_range'
  vars_new := fun _ hv => absurd hv List.not_mem_nil
  rows_new := by
    intro r hr
    have h : r.id ∈ List.range' m.nextRow drafts.length := by
      rw [← map_id_newRows m drafts]
      exact List.mem_map_of_mem hr
    exact List.mem_range'_1.1 h
  terms_lt := by
    intro r hr t ht
    obtain ⟨i, d, hd, rfl⟩ := mem_number.1 hr
    obtain ⟨u, hu, hut⟩ := mem_terms_toRow ht
    show t.var < m.nextVar
    rw [← hut]
    exact h d (List.mem_of_getElem? hd) u hu
  nextVar_le := le_rfl
  nextRow_le := Nat.le_add_right _ _

end ReluMilp
