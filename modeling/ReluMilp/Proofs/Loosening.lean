import ReluMilp.Proofs.Rectifying

/-!
# Loosened models

Subproblems may be posed on a model of which every variable takes all values between its bounds. It admits what
the model admits, except for variables that are zero though zero lies outside their bounds.

* `Variable.loosened`, `Model.loosened` — as it is, or relaxed;
* `Model.Adds.loosened`, `Model.loosened_withVars` — what is added to a model is added to the relaxed one;
* `Model.Feasible.loosened`, `Model.Feasible.loosened_of_not_gapped` — what is feasible in a relaxed model;
* `admits_loosened_binary`, `admits_loosened_nonneg` — the variables of a network there.
-/

namespace ReluMilp

/-! ### Relaxed variables -/

section Loosened

variable {α : Type}

/-- A variable as it is, or with any value between its bounds. -/
def Variable.loosened (relax : Bool) (v : Variable α) : Variable α :=
  if relax then { v with kind := .continuous } else v

/-- A model as it is, or relaxed. -/
def Model.loosened (relax : Bool) (m : Model α) : Model α := if relax then m.relaxed else m

@[simp] theorem Variable.loosened_id (relax : Bool) (v : Variable α) : (v.loosened relax).id = v.id := by
  cases relax <;> rfl

variable {m m' : Model α} {relax : Bool}

theorem Model.loosened_vars (relax : Bool) (m : Model α) :
    (m.loosened relax).vars = m.vars.map (Variable.loosened relax) := by
  cases relax with
  | false => exact (List.map_id m.vars).symm
  | true => rfl

@[simp] theorem Model.loosened_false (m : Model α) : m.loosened false = m := rfl

@[simp] theorem Model.loosened_rows (relax : Bool) (m : Model α) : (m.loosened relax).rows = m.rows := by
  cases relax <;> rfl

@[simp] theorem Model.loosened_nextVar (relax : Bool) (m : Model α) :
    (m.loosened relax).nextVar = m.nextVar := by
  cases relax <;> rfl

theorem Model.mem_loosened {v : Variable α} (relax : Bool) (h : v ∈ m.vars) :
    v.loosened relax ∈ (m.loosened relax).vars := by
  rw [m.loosened_vars]
  exact List.mem_map_of_mem h

theorem Model.WellFormed.loosened (h : m.WellFormed) (relax : Bool) : (m.loosened relax).WellFormed := by
  cases relax with
  | false => exact h
  | true => exact Model.wellFormed_relaxed h

/-- What is added to a model is added to the relaxed one. -/
theorem Model.Adds.loosened {vars : List VarId} {rows : List RowId} (h : m.Adds m' vars rows)
    (relax : Bool) : (m.loosened relax).Adds (m'.loosened relax) vars rows := by
  cases relax with
  | false => exact h
  | true =>
    obtain ⟨vs, rs, hg, rfl, hrows⟩ := h
    have hids : (vs.map (Variable.loosened true)).map (·.id) = vs.map (·.id) := by
      rw [List.map_map]
      rfl
    refine ⟨vs.map (Variable.loosened true), rs, ?_, hids, hrows⟩
    exact {
      name := hg.name
      parameters := hg.parameters
      objective := hg.objective
      vars := by
        rw [m'.loosened_vars, m.loosened_vars, hg.vars, List.map_append]
      rows := hg.rows
      vars_nodup := by
        rw [hids]
        exact hg.vars_nodup
      rows_nodup := hg.rows_nodup
      vars_new := List.forall_mem_map.2 fun v hv => hg.vars_new v hv
      rows_new := hg.rows_new
      terms_lt := hg.terms_lt
      nextVar_le := hg.nextVar_le
      nextRow_le := hg.nextRow_le }

/-- New variables that are continuous are not touched. -/
theorem Model.loosened_withVars (relax : Bool) (m : Model α) (names : List String) (lower upper : Limit α) :
    (m.withVars names .continuous lower upper).loosened relax =
      (m.loosened relax).withVars names .continuous lower upper := by
  cases relax with
  | false => rfl
  | true =>
    have hnew : (number (fun k name => (⟨m.nextVar + k, nameOrNumber "C" (m.nextVar + k) name, .continuous,
        lower, upper⟩ : Variable α)) 0 names).map (Variable.loosened true) =
        number (fun k name => ⟨m.nextVar + k, nameOrNumber "C" (m.nextVar + k) name, .continuous,
          lower, upper⟩) 0 names := map_number _ _ 0 names
    unfold Model.withVars
    show (⟨_, _, (m.vars ++ _).map (Variable.loosened true), _, _, _, _⟩ : Model α) = _
    rw [List.map_append, hnew]
    rfl

end Loosened

/-! ### What they admit -/

section Feasible

variable {m : Model Rat} {relax : Bool} {x : Assignment Rat}

/-- A value stays admitted, unless it is a zero that the bounds exclude. -/
theorem Variable.Admits.loosened {v : Variable Rat} {a : Rat} (h : v.Admits a)
    (hgap : relax = true → v.Gapped → a ≠ 0) : (v.loosened relax).Admits a := by
  cases relax with
  | false => exact h
  | true =>
    rcases h with ⟨hkind, rfl⟩ | ⟨hlower, hupper, -⟩
    · have hbounds : v.lower.AtMost 0 ∧ v.upper.AtLeast 0 := by
        by_contra hout
        exact hgap rfl ⟨hkind, hout⟩ rfl
      exact .inr ⟨hbounds.1, hbounds.2, trivial⟩
    · exact .inr ⟨hlower, hupper, trivial⟩

/-- An assignment stays feasible, unless it has a zero that the bounds of a variable exclude. -/
theorem Model.Feasible.loosened (h : m.Feasible x)
    (hgap : relax = true → ∀ v ∈ m.vars, v.Gapped → x v.id ≠ 0) : (m.loosened relax).Feasible x := by
  constructor
  · rw [m.loosened_vars, List.forall_mem_map]
    intro v hv
    rw [v.loosened_id]
    exact (h.1 v hv).loosened fun hrelax => hgap hrelax v hv
  · rw [m.loosened_rows]
    exact h.2

theorem Model.Feasible.loosened_of_not_gapped (h : m.Feasible x) (hgap : relax = true → ¬m.Gapped) :
    (m.loosened relax).Feasible x :=
  h.loosened fun hrelax v hv hv' => absurd ⟨v, hv, hv'⟩ (hgap hrelax)

theorem Model.not_gapped_of_nil (h : m.vars = []) : ¬m.Gapped := by
  simp [Model.Gapped, h]

theorem admits_loosened_binary {id : VarId} {name : String} {a : Rat} :
    ((⟨id, name, .binary, .finite 0, .finite 1⟩ : Variable Rat).loosened relax).Admits a ↔
      (0 ≤ a ∧ a ≤ 1) ∧ (relax = false → a = 0 ∨ a = 1) := by
  cases relax with
  | false =>
    refine admits_binary.trans ⟨fun h => ⟨?_, fun _ => h⟩, fun h => h.2 rfl⟩
    rcases h with rfl | rfl
    · exact ⟨le_rfl, zero_le_one⟩
    · exact ⟨zero_le_one, le_rfl⟩
  | true =>
    rw [Variable.admits_iff rfl]
    show 0 ≤ a ∧ a ≤ 1 ∧ True ↔ _
    rw [and_true]
    exact ⟨fun h => ⟨h, nofun⟩, fun h => h.1⟩

theorem admits_loosened_nonneg {id : VarId} {name : String} {a : Rat} :
    ((⟨id, name, .continuous, .finite 0, .posInf⟩ : Variable Rat).loosened relax).Admits a ↔ 0 ≤ a := by
  cases relax with
  | false => exact admits_nonneg
  | true => exact admits_nonneg

end Feasible

end ReluMilp
