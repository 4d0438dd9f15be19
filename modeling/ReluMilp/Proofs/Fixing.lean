import ReluMilp.Formulation.Evaluation
import ReluMilp.Proofs.Encoding
import ReluMilp.Proofs.Solvers
import Mathlib.Data.Finite.Prod
import Mathlib.Data.Set.Finite.Lemmas

/-!
# Variables fixed and set free again

A forward pass fixes the inputs, solves the model and sets their bounds back.

* `restore_setBounds` — bounds that were looked up before a change undo it;
* `feasible_fixed` — fixing free variables leaves the feasible assignments with these values;
* `setSide_setSide`, `solveFixed_of_undefined`, `solveFixed_of_defined` — lower bounds are written before
  upper ones, and none if a value is undefined;
* `solveFixed_run`, `solveFixed_eq` — the model after a solve with fixed variables is as before; the
  outcome of an exact solver; `forwardPass_settled` — a forward pass is such a solve;
* `exists_best` — a best assignment exists where the objective takes finitely many values.
-/

namespace ReluMilp

/-! ### Bounds that are set back -/

section Bounds

variable {α : Type}

theorem mem_of_lookup {β : Type} {l : List (VarId × β)} {id : VarId} {b : β}
    (h : l.lookup id = some b) : (id, b) ∈ l := by
  obtain ⟨l₁, l₂, rfl, -⟩ := List.lookup_eq_some_iff.1 h
  exact List.mem_append_right _ List.mem_cons_self

theorem lookup_eq_none {β : Type} {l : List (VarId × β)} {id : VarId}
    (h : ∀ p ∈ l, p.1 ≠ id) : l.lookup id = none :=
  List.lookup_eq_none_iff.2 fun p hp => bne_iff_ne.2 (h p hp).symm

theorem Variable.rebound_none {bounds : List (VarId × Limit α × Limit α)} {v : Variable α}
    (h : bounds.lookup v.id = none) : v.rebound bounds = v := by
  unfold rebound
  rw [h]

theorem Variable.rebound_some {bounds : List (VarId × Limit α × Limit α)} {v : Variable α}
    {l u : Limit α} (h : bounds.lookup v.id = some (l, u)) :
    v.rebound bounds = { v with lower := l, upper := u } := by
  unfold rebound
  rw [h]

/-- The variable with the number of a variable is that variable. -/
theorem var?_id {m : Model α} (hm : m.WellFormed) {v : Variable α} (hv : v ∈ m.vars) :
    m.var? v.id = some v := by
  unfold Model.var?
  cases hf : m.vars.find? (fun u => u.id = v.id) with
  | none => exact absurd (decide_eq_true rfl) (List.find?_eq_none.1 hf v hv)
  | some u =>
    have hu := List.find?_some hf
    rw [hm.eq_of_var_id (List.mem_of_find?_eq_some hf) hv (of_decide_eq_true hu)]

/-- Looked-up bounds of variables are their own. -/
theorem lookup_boundsOf {m : Model α} (hm : m.WellFormed) {v : Variable α} (hv : v ∈ m.vars)
    {ids : List VarId} (hid : v.id ∈ ids) :
    (m.boundsOf ids).lookup v.id = some (v.lower, v.upper) := by
  induction ids with
  | nil => cases hid
  | cons id ids ih =>
    unfold Model.boundsOf
    by_cases heq : v.id = id
    · subst heq
      rw [List.filterMap_cons, var?_id hm hv, Option.map_some, List.lookup_cons_self]
    · have hrest := ih ((List.mem_cons.1 hid).resolve_left heq)
      cases hvar : m.var? id with
      | none =>
        rw [List.filterMap_cons, hvar]
        exact hrest
      | some u =>
        rw [List.filterMap_cons, hvar, Option.map_some, List.lookup_cons, beq_false_of_ne heq]
        exact hrest

/-- Bounds of variables that are not looked up. -/
theorem lookup_boundsOf_none {m : Model α} {ids : List VarId} {id : VarId} (h : id ∉ ids) :
    (m.boundsOf ids).lookup id = none := by
  refine lookup_eq_none fun p hp heq => h ?_
  obtain ⟨id', hid', hmap⟩ := List.mem_filterMap.1 hp
  obtain ⟨v, -, rfl⟩ := Option.map_eq_some_iff.1 hmap
  rw [← heq]
  exact hid'

/-- Bounds that were looked up before a change undo it. -/
theorem restore_setBounds {m : Model α} (hm : m.WellFormed)
    {bounds : List (VarId × Limit α × Limit α)} {ids : List VarId}
    (h : ∀ id ∉ ids, bounds.lookup id = none) :
    (m.setBounds bounds).setBounds (m.boundsOf ids) = m := by
  have hvars : ∀ v ∈ m.vars, (v.rebound bounds).rebound (m.boundsOf ids) = v := by
    intro v hv
    by_cases hmem : v.id ∈ ids
    · have hlook := lookup_boundsOf hm hv hmem
      rw [← v.rebound_id bounds] at hlook
      rw [Variable.rebound_some hlook]
      unfold Variable.rebound
      cases bounds.lookup v.id <;> rfl
    · rw [Variable.rebound_none (h v.id hmem), Variable.rebound_none (lookup_boundsOf_none hmem)]
  show { m with vars := (m.vars.map _).map _ } = m
  rw [List.map_map]
  have : m.vars.map (Variable.rebound (m.boundsOf ids) ∘ Variable.rebound bounds) = m.vars :=
    (List.map_congr_left hvars).trans (List.map_id' m.vars)
  exact congrArg (fun vs => { m with vars := vs }) this

end Bounds

/-! ### Fixed variables -/

section Writing

variable {α : Type} [Scalar α]

/-- Values as bounds of variables on both sides. -/
def fixedBounds (ids : List VarId) (v : List α) : List (VarId × Limit α × Limit α) :=
  List.zipWith (fun id a => (id, Limit.ofScalar a, Limit.ofScalar a)) ids v

theorem lookup_fixedBounds_limits (ids : List VarId) (v : List α) (id : VarId) :
    (fixedBounds ids v).lookup id = ((fixedLimits ids v).lookup id).map fun l => (l, l) := by
  induction ids generalizing v with
  | nil => rfl
  | cons i ids ih =>
    cases v with
    | nil => rfl
    | cons a v =>
      show List.lookup id ((i, Limit.ofScalar a, Limit.ofScalar a) :: fixedBounds ids v) =
        (List.lookup id ((i, Limit.ofScalar a) :: fixedLimits ids v)).map _
      rw [List.lookup_cons, List.lookup_cons, ih]
      cases id == i <;> rfl

/-- One side of the bounds after the other makes both sides. -/
theorem setSide_setSide (m : Model α) (ids : List VarId) (v : List α) :
    (m.setSide .lower (fixedLimits ids v)).setSide .upper (fixedLimits ids v) =
      m.setBounds (fixedBounds ids v) := by
  unfold Model.setSide Model.setBounds
  rw [List.map_map]
  refine congrArg (fun vs => { m with vars := vs }) (List.map_congr_left fun u _ => ?_)
  rw [lookup_fixedBounds_limits, Function.comp_apply]
  cases hl : (fixedLimits ids v).lookup u.id with
  | none =>
    dsimp only [Option.map_none]
    rw [hl]
  | some l =>
    dsimp only [Option.map_some, Variable.withLimit]
    rw [hl]

theorem writeSide_of_defined (side : Side) (ids : List VarId) {v : List α}
    (h : v.any Scalar.isUndefined = false) (w : Workspace α) :
    writeSide side ids v w = .ok () (w.withModel (w.model.setSide side (fixedLimits ids v))) := by
  unfold writeSide Action.update
  dsimp only
  rw [h, if_neg Bool.false_ne_true]

theorem writeSide_of_undefined (side : Side) (ids : List VarId) {v : List α}
    (h : v.any Scalar.isUndefined = true) (w : Workspace α) :
    writeSide side ids v w = .error .missingMember w := by
  unfold writeSide Action.update
  dsimp only
  rw [h, if_pos rfl]

/-- The upper bounds are refused only where the lower ones were, so that nothing is written then. -/
theorem solveFixed_of_undefined (solver : Solver α) (ids : List VarId) {v : List α}
    (h : v.any Scalar.isUndefined = true) (w : Workspace α) :
    solveFixed solver ids v w = .error .missingMember w := by
  unfold solveFixed
  rw [Action.bind_of_eq_ok (Action.model_eq_ok.2 ⟨rfl, rfl⟩)]
  exact Action.bind_of_eq_error (writeSide_of_undefined .lower ids h w)

/-- Values that are defined are written on both sides before the solve. -/
theorem solveFixed_of_defined (solver : Solver α) (ids : List VarId) {v : List α}
    (h : v.any Scalar.isUndefined = false) :
    solveFixed solver ids v =
      .bracket (fun m => m.setBounds (fixedBounds ids v))
        (fun before now => now.setBounds (before.boundsOf ids)) (.solve solver) := by
  funext w
  unfold solveFixed
  rw [Action.bind_of_eq_ok (Action.model_eq_ok.2 ⟨rfl, rfl⟩),
    Action.bind_of_eq_ok (writeSide_of_defined .lower ids h w),
    Action.bind_of_eq_ok (writeSide_of_defined .upper ids h _)]
  show Action.ensuring _ (.solve solver)
      (w.withModel ((w.model.setSide .lower (fixedLimits ids v)).setSide .upper (fixedLimits ids v))) = _
  rw [setSide_setSide]
  rfl

end Writing

/-- A number that is exact is defined. -/
theorem any_isUndefined (v : List Rat) : v.any Scalar.isUndefined = false :=
  List.any_eq_false.2 fun _ _ => Bool.false_ne_true

theorem lookup_fixedBounds (ids : List VarId) (v : List Rat) (id : VarId) :
    (fixedBounds ids v).lookup id =
      ((ids.zip v).lookup id).map fun a => (Limit.finite a, Limit.finite a) := by
  induction ids generalizing v with
  | nil => rfl
  | cons i ids ih =>
    cases v with
    | nil => rfl
    | cons a v =>
      show List.lookup id ((i, Limit.ofScalar a, Limit.ofScalar a) :: fixedBounds ids v) =
        (List.lookup id ((i, a) :: ids.zip v)).map _
      rw [List.lookup_cons, List.lookup_cons, ih]
      cases id == i <;> rfl

theorem lookup_fixedBounds_none {α : Type} [Scalar α] {ids : List VarId} (v : List α) {id : VarId}
    (h : id ∉ ids) : (fixedBounds ids v).lookup id = none := by
  induction ids generalizing v with
  | nil => rfl
  | cons i ids ih =>
    rw [List.mem_cons, not_or] at h
    cases v with
    | nil => rfl
    | cons a v =>
      show List.lookup id ((i, Limit.ofScalar a, Limit.ofScalar a) :: fixedBounds ids v) = none
      rw [List.lookup_cons, beq_false_of_ne h.1]
      exact ih v h.2

theorem lookup_zip_map {ids : List VarId} (x : Assignment Rat) {id : VarId} {a : Rat}
    (h : (ids.zip (ids.map x)).lookup id = some a) : x id = a := by
  induction ids with
  | nil => cases h
  | cons i ids ih =>
    rw [List.map_cons, List.zip_cons_cons, List.lookup_cons] at h
    by_cases heq : id = i
    · subst heq
      rw [beq_self_eq_true] at h
      exact Option.some.inj h
    · rw [beq_false_of_ne heq] at h
      exact ih h

theorem map_eq_of_lookup {ids : List VarId} {v : List Rat} {x : Assignment Rat} (hn : ids.Nodup)
    (hlen : v.length = ids.length) (h : ∀ id a, (ids.zip v).lookup id = some a → x id = a) :
    ids.map x = v := by
  induction ids generalizing v with
  | nil => exact (List.length_eq_zero_iff.1 hlen).symm
  | cons i ids ih =>
    cases v with
    | nil => cases hlen
    | cons a v =>
      obtain ⟨hi, hids⟩ := List.nodup_cons.1 hn
      rw [List.map_cons, h i a List.lookup_cons_self, ih hids (Nat.succ.inj hlen) fun id b hb => ?_]
      refine h id b ?_
      have hne : id ≠ i := by
        rintro rfl
        exact hi (List.of_mem_zip (mem_of_lookup hb)).1
      rw [List.zip_cons_cons, List.lookup_cons, beq_false_of_ne hne]
      exact hb

section Feasible

variable {m : Model Rat} {ids : List VarId} {v : List Rat}

/-- A variable that is fixed was free before. -/
theorem free_of_lookup {u : Variable Rat} {c : Rat} (hm : m.WellFormed) (hfree : FreeStand m ids)
    (hu : u ∈ m.vars) (hc : (ids.zip v).lookup u.id = some c) :
    u.kind = .continuous ∧ u.lower = .negInf ∧ u.upper = .posInf := by
  obtain ⟨name, hstands⟩ := hfree u.id (List.of_mem_zip (mem_of_lookup hc)).1
  rw [hm.eq_of_var_id hu hstands rfl]
  exact ⟨rfl, rfl, rfl⟩

/-- What a variable admits once free variables are fixed. -/
theorem admits_fixed_iff {u : Variable Rat} {a : Rat} (hm : m.WellFormed) (hfree : FreeStand m ids)
    (hu : u ∈ m.vars) :
    (u.rebound (fixedBounds ids v)).Admits a ↔
      u.Admits a ∧ ∀ c, (ids.zip v).lookup u.id = some c → a = c := by
  have hlook := lookup_fixedBounds ids v u.id
  cases hc : (ids.zip v).lookup u.id with
  | none =>
    rw [hc] at hlook
    rw [Variable.rebound_none hlook]
    exact ⟨fun h => ⟨h, fun _ hsome => (nomatch hsome)⟩, fun h => h.1⟩
  | some c =>
    rw [hc] at hlook
    obtain ⟨hk, hl, hup⟩ := free_of_lookup hm hfree hu hc
    rw [Variable.rebound_some hlook]
    unfold Variable.Admits
    dsimp only
    rw [hk, hl, hup]
    simp only [VarKind.mayVanish, Bool.false_eq_true, false_and, false_or]
    constructor
    · rintro ⟨hle, hge, -⟩
      refine ⟨⟨trivial, trivial, trivial⟩, fun c' hc' => ?_⟩
      cases hc'
      exact le_antisymm hge hle
    · rintro ⟨-, heq⟩
      rw [heq c rfl]
      exact ⟨le_rfl (a := c), le_rfl (a := c), trivial⟩

/-- Fixing free variables leaves the feasible assignments with these values. -/
theorem feasible_fixed {x : Assignment Rat} (hm : m.WellFormed) (hfree : FreeStand m ids)
    (hn : ids.Nodup) (hlen : v.length = ids.length) :
    (m.setBounds (fixedBounds ids v)).Feasible x ↔ m.Feasible x ∧ ids.map x = v := by
  unfold Model.Feasible
  rw [setBounds_vars, List.forall_mem_map]
  simp only [Variable.rebound_id]
  constructor
  · rintro ⟨hvars, hrows⟩
    refine ⟨⟨fun u hu => ((admits_fixed_iff hm hfree hu).1 (hvars u hu)).1, hrows⟩, ?_⟩
    refine map_eq_of_lookup hn hlen fun id c hc => ?_
    obtain ⟨name, hstands⟩ := hfree id (List.of_mem_zip (mem_of_lookup hc)).1
    exact ((admits_fixed_iff hm hfree hstands).1 (hvars _ hstands)).2 c hc
  · rintro ⟨⟨hvars, hrows⟩, rfl⟩
    refine ⟨fun u hu => ?_, hrows⟩
    exact (admits_fixed_iff hm hfree hu).2 ⟨hvars u hu, fun c hc => lookup_zip_map x hc⟩

end Feasible

section Solving

variable {α : Type} [Scalar α]

/-- The workspace after one more solve of which nothing is left. -/
def Workspace.spent (w : Workspace α) : Workspace α := ⟨w.model, none, false, w.attempts + 1⟩

omit [Scalar α] in
@[simp] theorem Workspace.spent_model (w : Workspace α) : w.spent.model = w.model := rfl

/-- A solve with variables fixed to defined values ends as the solver does on the fixed model, and leaves
the model as it was. -/
theorem solveFixed_run (solver : Solver α) (ids : List VarId) {v : List α} {w : Workspace α}
    (hm : w.model.WellFormed) (hv : v.any Scalar.isUndefined = false) :
    solveFixed solver ids v w =
      match solver w.attempts (w.model.setBounds (fixedBounds ids v)) with
      | .ok o => .ok o w.spent
      | .error f => .error f w.spent := by
  have hback : (w.model.setBounds (fixedBounds ids v)).setBounds (w.model.boundsOf ids) = w.model :=
    restore_setBounds hm fun id hid => lookup_fixedBounds_none v hid
  rw [solveFixed_of_defined solver ids hv]
  unfold Action.bracket Action.solve
  dsimp only [Workspace.withModel]
  cases solver w.attempts (w.model.setBounds (fixedBounds ids v)) with
  | ok o =>
    dsimp only
    rw [hback]
    rfl
  | error f =>
    dsimp only
    rw [hback]
    rfl

/-- A forward pass for an input of the right length makes the changes that wait, solves, and reads the point of
the outcome. -/
theorem forwardPass_settled (solver : Solver α) {f : Formulation α} {b : Body} {t : Tensor α}
    (hb : f.body? = some b) (hlen : t.entries.length = b.inputs.length) (w : Workspace α) :
    forwardPass solver f (.ok t) w =
      (solveFixed solver b.inputs t.entries >>= fun o => pure <|
        match o.point with
        | some x => .values (b.outputs.map x)
        | none => .infeasible t.entries o.status : Action α (Evaluation α)) w.settled := by
  have hread : (Action.ofExcept (.ok t) : Action α (Tensor α)) w = .ok t w := rfl
  have hsettle : (Action.settle : Action α Unit) w = .ok () w.settled := rfl
  unfold forwardPass
  rw [Action.bind_of_eq_ok hread, hb]
  dsimp only
  rw [if_neg (not_not.2 hlen), Action.bind_of_eq_ok hsettle]
  cases hsolve : solveFixed solver b.inputs t.entries w.settled with
  | error e u => rw [Action.bind_of_eq_error hsolve, Action.bind_of_eq_error hsolve]
  | ok o u =>
    rw [Action.bind_of_eq_ok hsolve, Action.bind_of_eq_ok hsolve]
    cases o.point <;> rfl

end Solving

/-- An exact solver ends on the fixed model, which is then as before. -/
theorem solveFixed_eq {solver : Solver Rat} (hexact : solver.Exact) (ids : List VarId) (v : List Rat)
    {w : Workspace Rat} (hm : w.model.WellFormed) :
    ∃ o w', solveFixed solver ids v w = .ok o w' ∧ w'.model = w.model ∧
      o.Exact (w.model.setBounds (fixedBounds ids v)) := by
  obtain ⟨o, hsolve, ho⟩ := hexact w.attempts (w.model.setBounds (fixedBounds ids v))
  refine ⟨o, w.spent, ?_, rfl, ho⟩
  rw [solveFixed_run solver ids hm (any_isUndefined v), hsolve]

/-! ### Best assignments -/

/-- A sum of terms takes finitely many values where its variables do. -/
theorem finite_termsValue {s : Set (Assignment Rat)} {ts : List (Term Rat)}
    (h : ∀ t ∈ ts, ((fun x : Assignment Rat => x t.var) '' s).Finite) :
    ((fun x => termsValue x ts) '' s).Finite := by
  induction ts with
  | nil =>
    refine (Set.finite_singleton (0 : Rat)).subset ?_
    rintro _ ⟨x, -, rfl⟩
    rfl
  | cons t ts ih =>
    have hfirst := h t List.mem_cons_self
    have hrest := ih fun u hu => h u (List.mem_cons_of_mem _ hu)
    refine (Set.Finite.image2 (fun a b => t.coefficient * a + b) hfirst hrest).subset ?_
    rintro _ ⟨x, hx, rfl⟩
    exact ⟨x t.var, ⟨x, hx, rfl⟩, termsValue x ts, ⟨x, hx, rfl⟩, rfl⟩

/-- A best assignment exists where the variables of the objective take finitely many values. -/
theorem exists_best {m : Model Rat} (hne : ∃ x, m.Feasible x)
    (hfin : ∀ t ∈ m.objective.expression.terms,
      ((fun x : Assignment Rat => x t.var) '' {x | m.Feasible x}).Finite) : ∃ x, m.Best x := by
  have hvals : (m.objective.value '' {x | m.Feasible x}).Finite := by
    refine ((finite_termsValue hfin).image (· + m.objective.expression.constant)).subset ?_
    rintro _ ⟨x, hx, rfl⟩
    exact ⟨termsValue x m.objective.expression.terms, ⟨x, hx, rfl⟩, rfl⟩
  have hnonempty : (m.objective.value '' {x | m.Feasible x}).Nonempty := by
    obtain ⟨x, hx⟩ := hne
    exact ⟨_, x, hx, rfl⟩
  unfold Model.Best Objective.AtLeastAsGood
  cases m.objective.maximize with
  | true =>
    obtain ⟨_, ⟨x, hx, rfl⟩, hbest⟩ := Set.exists_max_image _ id hvals hnonempty
    exact ⟨x, hx, fun y hy => hbest _ ⟨y, hy, rfl⟩⟩
  | false =>
    obtain ⟨_, ⟨x, hx, rfl⟩, hbest⟩ := Set.exists_min_image _ id hvals hnonempty
    exact ⟨x, hx, fun y hy => hbest _ ⟨y, hy, rfl⟩⟩

end ReluMilp
