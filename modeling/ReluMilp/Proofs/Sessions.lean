import ReluMilp.Formulation.Report
import ReluMilp.Proofs.Exchanges
import ReluMilp.Proofs.Undoing

/-!
# Several networks in one model

Networks are formulated in a model, given other bounds, evaluated and removed, in any order.

* `Model.Adds.removeVars` — what was added to a model, when some of it is taken away;
* `Session` — a workspace and the formulations that were made in it; `Session.Step`, `Session.Run` — what
  users do;
* `Owned` — a model is that of the start and what the formulations stand for; one step keeps that
  (`Owned.step`), and so does any number of them (`Owned.run`);
* `Body.Placed.length_vars`, `length_rows`, `report_eq` — how much a formulation stands for, and what its
  report says of it;
* `session_accounted` — all of this at every point of a session.
-/

namespace ReluMilp

variable {α : Type}

/-! ### What is taken away from a model -/

section Removal

variable {m m₁ : Model α} {vars : List VarId} {rows : List RowId}

/-- What was added to a model does not depend on the parameters. -/
theorem Model.Adds.withParameters (h : m.Adds m₁ vars rows) (p : Parameters) :
    { m with parameters := p }.Adds { m₁ with parameters := p } vars rows := by
  obtain ⟨vs, rs, hg, hv, hr⟩ := h
  exact ⟨vs, rs, { hg with parameters := rfl }, hv, hr⟩

/-- Variables of which no row and no objective speaks. -/
theorem removeVars_eq {ids : List VarId} (hrows : ∀ r ∈ m.rows, ∀ t ∈ r.terms, t.var ∉ ids)
    (hobjective : ∀ t ∈ m.objective.expression.terms, t.var ∉ ids) :
    m.removeVars ids = { m with vars := m.vars.filter fun v => !ids.contains v.id } := by
  have hkept : ∀ ts : List (Term α), (∀ t ∈ ts, t.var ∉ ids) → Model.dropTerms ids ts = ts :=
    fun _ hts => filter_spared hts
  have hall : m.rows.map (fun r => { r with terms := Model.dropTerms ids r.terms }) = m.rows := by
    refine (List.map_congr_left fun r hr => ?_).trans (List.map_id m.rows)
    rw [hkept r.terms (hrows r hr)]
    rfl
  unfold Model.removeVars
  rw [hall, hkept _ hobjective]

/-- Variables that were added and are taken away again. -/
theorem Model.Adds.removeVars {ids : List VarId} (h : m.Adds m₁ vars rows) (hm : m.WellFormed)
    (hids : ∀ id ∈ ids, m.nextVar ≤ id) (hrows : ∀ r ∈ m₁.rows, ∀ t ∈ r.terms, t.var ∉ ids)
    (hobjective : ∀ t ∈ m₁.objective.expression.terms, t.var ∉ ids) :
    m.Adds (m₁.removeVars ids) (vars.filter fun id => !ids.contains id) rows := by
  have hkept : m.vars.filter (fun v => !ids.contains v.id) = m.vars :=
    filter_spared fun v hv hid => absurd (hids _ hid) (not_le.2 (hm.vars_lt v hv))
  obtain ⟨vs, rs, hg, rfl, hr⟩ := h
  rw [removeVars_eq hrows hobjective]
  refine ⟨vs.filter fun v => !ids.contains v.id, rs, ?_, ?_, hr⟩
  · refine { hg with vars := ?_, vars_nodup := ?_, vars_new := ?_ }
    · show m₁.vars.filter (fun v => !ids.contains v.id) = _
      rw [hg.vars, List.filter_append, hkept]
    · exact hg.vars_nodup.sublist (List.filter_sublist.map _)
    · exact fun v hv => hg.vars_new v (List.mem_filter.1 hv).1
  · rw [List.filter_map]
    rfl

/-- Some of distinct numbers, without a block of them. -/
theorem filter_block {before ids after : List Nat} (h : (before ++ (ids ++ after)).Nodup) :
    (before ++ (ids ++ after)).filter (fun id => !ids.contains id) = before ++ after := by
  obtain ⟨-, hrest, hfront⟩ := List.nodup_append'.1 h
  obtain ⟨-, -, hback⟩ := List.nodup_append'.1 hrest
  have hbefore : before.filter (fun id => !ids.contains id) = before :=
    filter_spared fun _ hid hmem => hfront hid (List.mem_append_left _ hmem)
  have hids : ids.filter (fun id => !ids.contains id) = [] := filter_gone fun _ hid => hid
  have hafter : after.filter (fun id => !ids.contains id) = after :=
    filter_spared fun _ hid hmem => hback hmem hid
  rw [List.filter_append, List.filter_append, hbefore, hids, hafter, List.nil_append]

end Removal

/-! ### Sessions -/

/-- A workspace and the formulations that were made in it, those that were removed included. -/
structure Session (α : Type) where
  workspace : Workspace α
  formulations : List (Formulation α)

namespace Session

/-- The model of a session. -/
def model (s : Session α) : Model α := s.workspace.model

/-- The variables of all formulations. -/
def vars (s : Session α) : List VarId := s.formulations.flatMap (·.vars)

/-- The rows of all formulations. -/
def rows (s : Session α) : List RowId := s.formulations.flatMap (·.rows)

variable [Scalar α]

/-- What users do without a fault: a network is formulated, a neuron is given other bounds, a formulation is
evaluated, and a formulation is removed. -/
inductive Step : Session α → Session α → Prop
  | build {w w' : Workspace α} {fs : List (Formulation α)} {f : Formulation α} (solver : Solver α)
      (settings : Option Settings) (a : BuildArguments α) : a.Faithful →
      formulateNetwork solver settings a w = .ok f w' → Step ⟨w, fs⟩ ⟨w', fs ++ [f]⟩
  | revise {w w' : Workspace α} {fs : List (Formulation α)} {i : Nat} {f g : Formulation α}
      (c : Revision α) : fs[i]? = some f →
      f.replaceBigM c.layer c.neuron c.upper c.lower w = .ok ⟨g, none⟩ w' → Step ⟨w, fs⟩ ⟨w', fs.set i g⟩
  | evaluate {w w' : Workspace α} {fs : List (Formulation α)} {i : Nat} {f : Formulation α}
      {e : Evaluation α} (solver : Solver α) (input : Reading α) : fs[i]? = some f →
      forwardPass solver f input w = .ok e w' → Step ⟨w, fs⟩ ⟨w', fs⟩
  | remove {w w' : Workspace α} {fs : List (Formulation α)} {i : Nat} {f g : Formulation α} :
      fs[i]? = some f → f.remove w = .ok g w' → Step ⟨w, fs⟩ ⟨w', fs.set i g⟩

/-- Any number of steps. -/
inductive Run (s : Session α) : Session α → Prop
  | refl : Run s s
  | step {s' s'' : Session α} : Run s s' → Step s' s'' → Run s s''

end Session

/-! ### Formulations of a session -/

variable [Scalar α]

/-- A formulation that was not removed is placed in a model. -/
def Formulation.Placed (f : Formulation α) (m : Model α) : Prop :=
  ∀ b, f.body? = some b → ∃ table, b.Placed m f.network f.mode table

section Parts

variable {f : Formulation α} {b : Body} {m m' : Model α}

omit [Scalar α] in
/-- What a formulation with a body stands for. -/
theorem parts_of_body (h : f.body? = some b) : f.vars = b.vars ∧ f.rows = b.rows := by
  unfold Formulation.vars Formulation.rows
  rw [h]
  exact ⟨rfl, rfl⟩

omit [Scalar α] in
/-- A removed formulation stands for nothing. -/
theorem parts_of_removed (h : f.body? = none) : f.vars = [] ∧ f.rows = [] := by
  unfold Formulation.vars Formulation.rows
  rw [h]
  exact ⟨rfl, rfl⟩

theorem Formulation.Placed.spare (h : f.Placed m) (hs : m.Spares m' f.vars f.rows) : f.Placed m' := by
  intro b hb
  obtain ⟨table, hp⟩ := h b hb
  obtain ⟨hvars, hrows⟩ := parts_of_body hb
  rw [hvars, hrows] at hs
  exact ⟨table, hp.spare hs⟩

theorem Formulation.Placed.within (h : f.Placed m) : m.RowsWithin f.rows f.vars := by
  cases hb : f.body? with
  | none =>
    rw [(parts_of_removed hb).2]
    exact fun id hid => absurd hid List.not_mem_nil
  | some b =>
    obtain ⟨table, hp⟩ := h b hb
    rw [(parts_of_body hb).1, (parts_of_body hb).2]
    exact hp.within

omit [Scalar α] in
/-- A removal takes the rows and then the variables away. -/
theorem remove_of_body (h : f.body? = some b) (w : Workspace α) :
    ∃ w', f.remove w = .ok { f with body? := none } w' ∧
      w'.model = (w.model.removeRows b.rows).removeVars b.vars := by
  refine ⟨(w.withWaiting (w.model.removeRows b.rows)).withModel
    ((w.model.removeRows b.rows).removeVars b.vars), ?_, rfl⟩
  unfold Formulation.remove
  rw [h]
  rfl

omit [Scalar α] in
/-- A removed formulation is not removed again. -/
theorem remove_of_removed (h : f.body? = none) (w : Workspace α) : f.remove w = .ok f w := by
  unfold Formulation.remove
  rw [h]
  rfl

/-- A forward pass leaves the model as it was. -/
theorem forwardPass_model {solver : Solver α} {input : Reading α} {w w' : Workspace α} {e : Evaluation α}
    (hm : w.model.WellFormed) (h : forwardPass solver f input w = .ok e w') : w'.model = w.model := by
  have hend := forwardPass_end solver f input hm
  rw [h] at hend
  cases hend with
  | pointless hb hs hx => rfl
  | solved hb hs hx => rfl

end Parts

/-! ### The model of a session -/

/-- A model is another one with what some formulations stand for, and every one of them that was not removed
is placed in it. -/
structure Owned (m₀ m : Model α) (fs : List (Formulation α)) : Prop where
  wellFormed : m.WellFormed
  adds : { m₀ with parameters := m.parameters }.Adds m (fs.flatMap Formulation.vars)
    (fs.flatMap Formulation.rows)
  placed : ∀ f ∈ fs, f.Placed m

namespace Owned

variable {m₀ m m' : Model α} {w w' : Workspace α} {fs before after : List (Formulation α)}
  {e f g : Formulation α}

theorem start (hm : m.WellFormed) : Owned m m [] :=
  ⟨hm, .refl m, fun _ hf => absurd hf List.not_mem_nil⟩

theorem build {solver : Solver α} {settings : Option Settings} {a : BuildArguments α}
    (h : Owned m₀ w.model fs) (ha : a.Faithful) (hbuild : formulateNetwork solver settings a w = .ok f w') :
    Owned m₀ w'.model (fs ++ [f]) := by
  obtain ⟨-, hm', b, table, hb, hp, hadds⟩ := formulateNetwork_placed h.wellFormed ha hbuild
  obtain ⟨hvars, hrows⟩ := parts_of_body hb
  have hfs : { m₀ with parameters := w'.model.parameters }.Adds
      { w.model with parameters := w'.model.parameters } (fs.flatMap Formulation.vars)
      (fs.flatMap Formulation.rows) := h.adds.withParameters w'.model.parameters
  refine ⟨hm', ?_, fun e he => ?_⟩
  · rw [List.flatMap_append, List.flatMap_append, List.flatMap_singleton, List.flatMap_singleton, hvars,
      hrows]
    exact hfs.trans hadds
  · rcases List.mem_append.1 he with he | he
    · have hspares := hadds.spares e.vars e.rows
      exact (h.placed e he).spare ⟨hspares.vars, hspares.rows, hspares.nextRow_le⟩
    · rw [List.mem_singleton.1 he]
      intro b' hb'
      rw [hb] at hb'
      cases hb'
      exact ⟨table, hp⟩

section Exchange

omit [Scalar α] in
/-- What one of some formulations stands for, and what the others do. -/
theorem perm_parts {β : Type} (part : Formulation α → List β) (before after : List (Formulation α))
    (f : Formulation α) :
    ((before ++ f :: after).flatMap part).Perm (part f ++ (before ++ after).flatMap part) := by
  rw [← List.flatMap_cons]
  exact List.perm_middle.flatMap_right _

/-- Two formulations have no variable and no row in common. -/
theorem disjoint (h : Owned m₀ m (before ++ f :: after)) (he : e ∈ before ++ after) :
    List.Disjoint f.vars e.vars ∧ List.Disjoint f.rows e.rows := by
  have hvars := (perm_parts Formulation.vars before after f).nodup h.adds.vars_nodup
  have hrows := (perm_parts Formulation.rows before after f).nodup h.adds.rows_nodup
  constructor
  · exact fun id hid hid' =>
      (List.nodup_append'.1 hvars).2.2 hid (List.mem_flatMap.2 ⟨e, he, hid'⟩)
  · exact fun id hid hid' =>
      (List.nodup_append'.1 hrows).2.2 hid (List.mem_flatMap.2 ⟨e, he, hid'⟩)

/-- One formulation is exchanged for another one, and the rest is left alone. -/
theorem exchange (h : Owned m₀ m (before ++ f :: after)) (hm' : m'.WellFormed)
    (hadds : { m₀ with parameters := m'.parameters }.Adds m'
      ((before ++ g :: after).flatMap Formulation.vars) ((before ++ g :: after).flatMap Formulation.rows))
    (hg : g.Placed m') (hothers : ∀ e ∈ before ++ after, m.Spares m' e.vars e.rows) :
    Owned m₀ m' (before ++ g :: after) := by
  refine ⟨hm', hadds, fun e he => ?_⟩
  have hmem : e = g ∨ e ∈ before ++ after := by
    rw [List.mem_append, List.mem_cons] at he
    rw [List.mem_append]
    tauto
  rcases hmem with rfl | he
  · exact hg
  · refine (h.placed e ?_).spare (hothers e he)
    rw [List.mem_append, List.mem_cons]
    exact (List.mem_append.1 he).imp_right Or.inr

end Exchange

/-- A replacement leaves the other formulations alone. -/
theorem revise_spares {c : Revision α} (h : Owned m₀ m (before ++ f :: after)) {b : Body} {k i : Nat}
    {us : List HiddenUnit} {u : HiddenUnit} {j : Interval α} (hr : f.Replaced c m b k i us u j g m')
    (he : e ∈ before ++ after) : m.Spares m' e.vars e.rows := by
  have hu : u ∈ b.hidden.flatten :=
    List.mem_flatten.2 ⟨us, List.mem_of_getElem? hr.units, List.mem_of_getElem? hr.unit⟩
  have hmine : [u.upperRow, u.lowerRow] ⊆ f.rows := by
    rw [(parts_of_body hr.body).2]
    exact fun id hid => Body.mem_rows.2
      (.inr (.inl ((mem_flatMap_units hu).2 (List.mem_cons_of_mem _ hid))))
  rw [hr.model]
  exact spares_swap m u _ _ j e.vars fun id hid => (h.disjoint he).2 (hmine hid)

theorem revise {c : Revision α} (h : Owned m₀ m (before ++ f :: after)) (hm₀ : m₀.WellFormed) {b : Body}
    {k i : Nat} {us : List HiddenUnit} {u : HiddenUnit} {j : Interval α}
    (hr : f.Replaced c m b k i us u j g m') : Owned m₀ m' (before ++ g :: after) := by
  obtain ⟨hn, hmode, -, hg⟩ := hr.fixed
  obtain ⟨table, hp⟩ := h.placed f (List.mem_append_right _ List.mem_cons_self) b hr.body
  obtain ⟨hvars, hrows⟩ := parts_of_body hr.body
  obtain ⟨hvars', hrows'⟩ := parts_of_body hg
  have hu : u ∈ b.hidden.flatten :=
    List.mem_flatten.2 ⟨us, List.mem_of_getElem? hr.units, List.mem_of_getElem? hr.unit⟩
  obtain ⟨p, n, d, hst⟩ := hp.stands.hidden.exists_of_mem hu
  obtain ⟨rest, hb, hb'⟩ := rows_withUnit (u.moved m.nextRow) hr.units hr.unit
  have hsame : (before ++ g :: after).flatMap Formulation.vars =
      (before ++ f :: after).flatMap Formulation.vars := by
    rw [List.flatMap_append, List.flatMap_append, List.flatMap_cons, List.flatMap_cons, hvars, hvars',
      vars_withUnit _ hr.units hr.unit]
  have hfirst : ((before ++ f :: after).flatMap Formulation.rows).Perm
      (u.rows ++ (rest ++ (before ++ after).flatMap Formulation.rows)) := by
    refine (perm_parts Formulation.rows before after f).trans ?_
    rw [hrows, ← List.append_assoc]
    exact hb.append_right _
  have hlast : ((u.moved m.nextRow).rows ++ (rest ++ (before ++ after).flatMap Formulation.rows)).Perm
      ((before ++ g :: after).flatMap Formulation.rows) := by
    refine List.Perm.trans ?_ (perm_parts Formulation.rows before after g).symm
    rw [hrows', ← List.append_assoc]
    exact hb'.symm.append_right _
  obtain ⟨hp', hm'⟩ := hp.swap h.wellFormed hr.units hr.unit
    (unitRowName f.name "relu_ub" c.layer c.neuron) (unitRowName f.name "relu_lb" c.layer c.neuron) j
  have hadds := (h.adds.swap (Model.wellFormed_parameters hm₀ _) hfirst
    (fun id hid => hst.vars_lt h.wellFormed hid) (unitRowName f.name "relu_ub" c.layer c.neuron)
    (unitRowName f.name "relu_lb" c.layer c.neuron) j).perm hlast
  have hparameters : m'.parameters = m.parameters := by
    rw [hr.model]
    rfl
  rw [← hr.model] at hp' hm' hadds
  refine h.exchange hm' ?_ ?_ fun e he => h.revise_spares hr he
  · rw [hsame, hparameters]
    exact hadds
  · intro b₁ hb₁
    rw [hg] at hb₁
    cases hb₁
    rw [hn, hmode]
    exact ⟨_, hp'⟩

/-- Only a formulation's own rows speak of its variables. -/
theorem terms_others (h : Owned m₀ m (before ++ f :: after)) (hm₀ : m₀.WellFormed) {r : Row α}
    (hr : r ∈ m.rows) (hid : r.id ∉ f.rows) : ∀ t ∈ r.terms, t.var ∉ f.vars := by
  intro t ht hmine
  have hnew := (h.adds.vars_new (List.mem_flatMap.2
    ⟨f, List.mem_append_right _ List.mem_cons_self, hmine⟩)).1
  obtain ⟨vs, rs, hg, -, hp⟩ := h.adds
  have hr' := hr
  rw [hg.rows] at hr'
  rcases List.mem_append.1 hr' with hold | hnew'
  · exact absurd (hm₀.terms_lt r hold t ht) (not_lt.2 hnew)
  · obtain ⟨e, he, hrow⟩ := List.mem_flatMap.1 (hp.mem_iff.1 (List.mem_map_of_mem hnew'))
    have hother : e ∈ before ++ after := by
      rw [List.mem_append, List.mem_cons] at he
      rw [List.mem_append]
      rcases he with he | rfl | he
      · exact .inl he
      · exact absurd hrow hid
      · exact .inr he
    exact (h.disjoint hother).1 hmine ((h.placed e he).within.terms h.wellFormed hr hrow ht)

/-- The objective does not speak of the variables of a formulation. -/
theorem terms_objective (h : Owned m₀ m (before ++ f :: after))
    (hobjective : ∀ t ∈ m₀.objective.expression.terms, t.var < m₀.nextVar) :
    ∀ t ∈ m.objective.expression.terms, t.var ∉ f.vars := by
  intro t ht hmine
  have hnew := (h.adds.vars_new (List.mem_flatMap.2
    ⟨f, List.mem_append_right _ List.mem_cons_self, hmine⟩)).1
  obtain ⟨vs, rs, hg, -, -⟩ := h.adds
  have hsame : m.objective = m₀.objective := hg.objective
  rw [hsame] at ht
  exact absurd (hobjective t ht) (not_lt.2 hnew)

/-- Without the rows and the variables of one formulation, nothing of the model changes but that they are
gone. -/
theorem removed_eq (h : Owned m₀ m (before ++ f :: after)) (hm₀ : m₀.WellFormed)
    (hobjective : ∀ t ∈ m₀.objective.expression.terms, t.var < m₀.nextVar) :
    (m.removeRows f.rows).removeVars f.vars =
      { m with
        vars := m.vars.filter fun v => !f.vars.contains v.id
        rows := m.rows.filter fun r => !f.rows.contains r.id } := by
  refine removeVars_eq (m := m.removeRows f.rows) (fun r hr => ?_) (h.terms_objective hobjective)
  obtain ⟨hr, hid⟩ := mem_removeRows.1 hr
  exact h.terms_others hm₀ hr hid

/-- A removal leaves the other formulations alone. -/
theorem remove_spares (h : Owned m₀ m (before ++ f :: after)) (hm₀ : m₀.WellFormed)
    (hobjective : ∀ t ∈ m₀.objective.expression.terms, t.var < m₀.nextVar) (he : e ∈ before ++ after) :
    m.Spares ((m.removeRows f.rows).removeVars f.vars) e.vars e.rows := by
  obtain ⟨hv, hr⟩ := h.disjoint he
  rw [h.removed_eq hm₀ hobjective]
  refine ⟨fun v hmem hid => List.mem_filter.2 ⟨hmem, ?_⟩, fun r hmem hid => ?_, le_rfl⟩
  · rw [Bool.not_eq_true', List.contains_eq_mem, decide_eq_false_iff_not]
    exact fun hmine => hv hmine hid
  · exact mem_removeRows.2 ⟨hmem, fun hmine => hr hmine hid⟩

/-- One formulation is removed. -/
theorem remove (h : Owned m₀ m (before ++ f :: after)) (hm₀ : m₀.WellFormed)
    (hobjective : ∀ t ∈ m₀.objective.expression.terms, t.var < m₀.nextVar) :
    Owned m₀ ((m.removeRows f.rows).removeVars f.vars) (before ++ { f with body? := none } :: after) := by
  have hbase := Model.wellFormed_parameters hm₀ m.parameters
  have hnone : ({ f with body? := none } : Formulation α).body? = none := rfl
  have hgone : ∀ {β : Type} (part : Formulation α → List β), part { f with body? := none } = [] →
      (before ++ { f with body? := none } :: after).flatMap part = (before ++ after).flatMap part := by
    intro β part hpart
    rw [List.flatMap_append, List.flatMap_append, List.flatMap_cons, hpart, List.nil_append]
  have hnew : ∀ id ∈ f.vars, m₀.nextVar ≤ id := fun id hid => (h.adds.vars_new (List.mem_flatMap.2
    ⟨f, List.mem_append_right _ List.mem_cons_self, hid⟩)).1
  have hrows := h.adds.removeRows hbase (perm_parts Formulation.rows before after f)
  have hspared : ∀ r ∈ (m.removeRows f.rows).rows, ∀ t ∈ r.terms, t.var ∉ f.vars :=
    fun r hr => h.terms_others hm₀ (mem_removeRows.1 hr).1 (mem_removeRows.1 hr).2
  have hvars := hrows.removeVars hbase hnew hspared (h.terms_objective hobjective)
  have hleft : ((before ++ f :: after).flatMap Formulation.vars).filter (fun id => !f.vars.contains id) =
      (before ++ after).flatMap Formulation.vars := by
    have hnodup := h.adds.vars_nodup
    rw [List.flatMap_append, List.flatMap_cons] at hnodup ⊢
    rw [filter_block hnodup, List.flatMap_append]
  rw [hleft] at hvars
  refine h.exchange (Model.wellFormed_removeVars (Model.wellFormed_removeRows h.wellFormed _) _) ?_
    (fun b hb => (nomatch hb)) fun e he => h.remove_spares hm₀ hobjective he
  rw [hgone Formulation.vars (parts_of_removed hnone).1, hgone Formulation.rows (parts_of_removed hnone).2]
  exact hvars

/-- One step of a session. -/
theorem step {s s' : Session α} (h : Owned m₀ s.workspace.model s.formulations) (hm₀ : m₀.WellFormed)
    (hobjective : ∀ t ∈ m₀.objective.expression.terms, t.var < m₀.nextVar) (hstep : s.Step s') :
    Owned m₀ s'.workspace.model s'.formulations := by
  cases hstep with
  | build solver settings a ha hbuild => exact h.build ha hbuild
  | @revise w w' fs i f g c hi hrevise =>
    obtain ⟨before, after, hfs, hset⟩ := set_split g hi
    obtain ⟨b, k, j, us, u, d, hr⟩ := exists_replaced hrevise
    show Owned m₀ w'.model (fs.set i g)
    rw [hset]
    have hsplit : Owned m₀ w.model (before ++ f :: after) := hfs ▸ h
    exact hsplit.revise hm₀ hr
  | @evaluate w w' fs i f e solver input hi heval =>
    show Owned m₀ w'.model fs
    rw [forwardPass_model h.wellFormed heval]
    exact h
  | @remove w w' fs i f g hi hremove =>
    obtain ⟨before, after, hfs, hset⟩ := set_split g hi
    have hsplit : Owned m₀ w.model (before ++ f :: after) := hfs ▸ h
    show Owned m₀ w'.model (fs.set i g)
    cases hb : f.body? with
    | none =>
      rw [remove_of_removed hb] at hremove
      cases hremove
      rw [hset]
      exact hsplit
    | some b =>
      obtain ⟨v, hrun, hv⟩ := remove_of_body hb w
      obtain ⟨hvars, hrows⟩ := parts_of_body hb
      rw [hrun] at hremove
      cases hremove
      rw [hset, hv, ← hvars, ← hrows]
      exact hsplit.remove hm₀ hobjective

/-- Any number of steps. -/
theorem run {s s' : Session α} (h : Owned m₀ s.workspace.model s.formulations) (hm₀ : m₀.WellFormed)
    (hobjective : ∀ t ∈ m₀.objective.expression.terms, t.var < m₀.nextVar) (hrun : s.Run s') :
    Owned m₀ s'.workspace.model s'.formulations := by
  induction hrun with
  | refl => exact h
  | step _ hstep ih => exact ih.step hm₀ hobjective hstep

end Owned

/-! ### Sizes -/

section Sizes

omit [Scalar α]

/-- How many hidden neurons a network has. -/
def Network.hiddenCount (n : Network α) : Nat := (n.hidden.map (·.outputs)).sum

/-- How many variables a network has in a model. -/
def Network.varCount (n : Network α) : Nat := n.inputs + 3 * n.hiddenCount + n.outputs

/-- How many rows a network has in a model: those of the neurons, and two for every value that is
bounded. -/
def Network.rowCount (n : Network α) (mode : Mode) : Nat :=
  2 * n.inputs + 3 * n.hiddenCount + n.outputs + if mode = .output then 2 * n.outputs else 0

/-- The lines that a report has for the layers of a network. -/
def Network.reportedLayers (n : Network α) : List String :=
  let hidden := number (fun k (l : Layer α) =>
    layerLine k "relu" l.outputs (3 * l.outputs) l.outputs (3 * l.outputs)) 1 n.hidden
  let output := layerLine (n.hidden.length + 1) "identity" n.outputs n.outputs 0 n.outputs
  (hidden ++ [output]).flatMap fun line => [line, ""]

/-- The report on a network in a model. -/
def Network.reported (n : Network α) (name : Value) (mode : Mode) : List String :=
  ["Model for " ++ name.asText ++ ":", s!"{n.varCount} variables", s!"{n.rowCount mode} constraints",
    "Input has shape " ++ vectorShape n.inputs, "Output has shape " ++ vectorShape n.outputs,
    "Bound tightening: " ++ mode.name, "", rule '-' heading.length, heading, rule '=' heading.length]
    ++ n.reportedLayers ++ [rule '-' heading.length]

theorem length_unitVars (us : List HiddenUnit) : (Body.unitVars us).length = 3 * us.length := by
  simp only [Body.unitVars, List.length_append, List.length_map]
  omega

theorem length_unitRows (us : List HiddenUnit) : (Body.unitRows us).length = 3 * us.length := by
  simp only [Body.unitRows, List.length_append, List.length_map]
  omega

theorem length_flatMap_units {f : List HiddenUnit → List Nat} (hf : ∀ us, (f us).length = 3 * us.length)
    (uss : List (List HiddenUnit)) : (uss.flatMap f).length = 3 * (uss.map List.length).sum := by
  induction uss with
  | nil => rfl
  | cons us uss ih =>
    rw [List.flatMap_cons, List.length_append, ih, hf, List.map_cons, List.sum_cons]
    omega

end Sizes

namespace Body.Placed

variable {b : Body} {m : Model α} {n : Network α} {mode : Mode} {table : List (List (Interval α))}

theorem widths (h : b.Placed m n mode table) :
    b.hidden.map List.length = n.hidden.map (·.outputs) ∧ b.outputs.length = n.outputs ∧
      b.outputRows.length = n.outputs :=
  ⟨h.stands.hidden.length_eq.1, h.stands.output_rows.length_middle, h.stands.output_rows.length_right⟩

theorem length_vars (h : b.Placed m n mode table) : b.vars.length = n.varCount := by
  obtain ⟨hhidden, hout, -⟩ := h.widths
  unfold Body.vars Network.varCount Network.hiddenCount
  rw [List.length_append, List.length_append, length_flatMap_units length_unitVars, hhidden, hout,
    h.stands.inputs_length]

theorem length_rows (h : b.Placed m n mode table) : b.rows.length = n.rowCount mode := by
  obtain ⟨hhidden, -, hout⟩ := h.widths
  unfold Body.rows Network.rowCount Network.hiddenCount
  rw [List.length_append, List.length_append, List.length_append, length_flatMap_units length_unitRows,
    hhidden, hout, h.input_count, h.range_count]

theorem layerLines_eq (h : b.Placed m n mode table) : layerLines b = n.reportedLayers := by
  obtain ⟨hhidden, hout, hrows⟩ := h.widths
  have hlen : b.hidden.length = n.hidden.length := by
    have := congrArg List.length hhidden
    rwa [List.length_map, List.length_map] at this
  have hlines : number (fun k (us : List HiddenUnit) =>
        layerLine k "relu" us.length (3 * us.length) us.length (3 * us.length)) 1 b.hidden =
      number (fun k (l : Layer α) =>
        layerLine k "relu" l.outputs (3 * l.outputs) l.outputs (3 * l.outputs)) 1 n.hidden := by
    rw [← number_map (fun k c => layerLine k "relu" c (3 * c) c (3 * c)) List.length, hhidden, number_map]
  unfold layerLines Network.reportedLayers
  simp only [length_unitRows]
  rw [hlines, hlen, hout, hrows]

/-- The report on a formulation is that on its network. -/
theorem report_eq {f : Formulation α} (h : b.Placed m f.network f.mode table) (hb : f.body? = some b) :
    f.report = (f.network.reported f.name f.mode, none) := by
  obtain ⟨hvars, hrows⟩ := parts_of_body hb
  obtain ⟨-, hout, -⟩ := h.widths
  unfold Formulation.report
  rw [hb]
  dsimp only
  rw [hvars, hrows, h.length_vars, h.length_rows, h.stands.inputs_length, hout, h.layerLines_eq]
  rfl

end Body.Placed

/-! ### Sessions from the start -/

/-- What holds at every point of a session that began with a model. -/
structure Session.Accounted (m₀ : Model α) (s : Session α) : Prop where
  /-- The first variables and rows are those of the start, and all others belong to formulations. -/
  added : ∃ vs rs, s.model.vars = m₀.vars ++ vs ∧ s.model.rows = m₀.rows ++ rs ∧
    vs.map (·.id) = s.vars ∧ (rs.map (·.id)).Perm s.rows
  vars_nodup : (s.model.vars.map (·.id)).Nodup
  rows_nodup : (s.model.rows.map (·.id)).Nodup
  apart : s.formulations.Pairwise fun f g =>
    List.Disjoint f.vars g.vars ∧ List.Disjoint f.rows g.rows
  name : s.model.name = m₀.name
  objective : s.model.objective = m₀.objective
  /-- A removal takes away what the formulation stands for, and nothing happens the second time. -/
  removed : ∀ f ∈ s.formulations, f.body? ≠ none → ∃ g v, f.remove s.workspace = .ok g v ∧
    g.body? = none ∧
    v.model = { s.model with
      vars := s.model.vars.filter fun v => !f.vars.contains v.id
      rows := s.model.rows.filter fun r => !f.rows.contains r.id } ∧
    ∀ v', g.remove v' = .ok g v'
  /-- Without formulations the model has what it had at the start. -/
  emptied : (∀ f ∈ s.formulations, f.body? = none) →
    s.model.vars = m₀.vars ∧ s.model.rows = m₀.rows
  sizes : ∀ f ∈ s.formulations, f.body? ≠ none → f.vars.length = f.network.varCount ∧
    f.rows.length = f.network.rowCount f.mode ∧ f.report = (f.network.reported f.name f.mode, none)

/-- Two formulations at different places have no variable and no row in common. -/
theorem Owned.apart {m₀ m : Model α} {fs : List (Formulation α)} (h : Owned m₀ m fs) :
    fs.Pairwise fun f g => List.Disjoint f.vars g.vars ∧ List.Disjoint f.rows g.rows := by
  have hvars := (List.nodup_flatMap.1 h.adds.vars_nodup).2
  have hrows := (List.nodup_flatMap.1 h.adds.rows_nodup).2
  exact hvars.and hrows

theorem Owned.accounted {m₀ : Model α} {s : Session α} (h : Owned m₀ s.workspace.model s.formulations)
    (hm₀ : m₀.WellFormed) (hobjective : ∀ t ∈ m₀.objective.expression.terms, t.var < m₀.nextVar) :
    s.Accounted m₀ := by
  obtain ⟨vs, rs, hg, hv, hr⟩ := h.adds
  refine ⟨⟨vs, rs, hg.vars, hg.rows, hv, hr⟩, h.wellFormed.vars_nodup, h.wellFormed.rows_nodup, h.apart,
    hg.name, hg.objective, fun f hf hlive => ?_, fun hall => ?_, fun f hf hlive => ?_⟩
  · obtain ⟨b, hb⟩ := Option.ne_none_iff_exists'.1 hlive
    obtain ⟨before, after, hfs⟩ := List.append_of_mem hf
    obtain ⟨v, hrun, hv⟩ := remove_of_body hb s.workspace
    obtain ⟨hvars, hrows⟩ := parts_of_body hb
    refine ⟨_, v, hrun, rfl, ?_, remove_of_removed rfl⟩
    rw [hv, ← hvars, ← hrows]
    rw [hfs] at h
    exact h.removed_eq hm₀ hobjective
  · have hnone : ∀ {β : Type} (part : Formulation α → List β), (∀ f, f.body? = none → part f = []) →
        s.formulations.flatMap part = [] :=
      fun part hpart => List.flatMap_eq_nil_iff.2 fun f hf => hpart f (hall f hf)
    have hvs : vs = [] := by
      rw [hnone Formulation.vars fun f hf => (parts_of_removed hf).1] at hv
      exact List.map_eq_nil_iff.1 hv
    have hrs : rs = [] := by
      rw [hnone Formulation.rows fun f hf => (parts_of_removed hf).2] at hr
      exact List.map_eq_nil_iff.1 hr.eq_nil
    have hmodel := hg.vars
    have hmodel' := hg.rows
    rw [hvs, List.append_nil] at hmodel
    rw [hrs, List.append_nil] at hmodel'
    exact ⟨hmodel, hmodel'⟩
  · obtain ⟨b, hb⟩ := Option.ne_none_iff_exists'.1 hlive
    obtain ⟨table, hp⟩ := h.placed f hf b hb
    obtain ⟨hvars, hrows⟩ := parts_of_body hb
    rw [hvars, hrows]
    exact ⟨hp.length_vars, hp.length_rows, hp.report_eq hb⟩

/-- Whatever networks are formulated in a model, given other bounds, evaluated and removed, and in whatever
order: the model is at every point that of the start with what the formulations stand for, and
nothing of the start changes. -/
theorem session_accounted {w : Workspace α} {s : Session α} (hm : w.model.WellFormed)
    (hobjective : ∀ t ∈ w.model.objective.expression.terms, t.var < w.model.nextVar)
    (hrun : Session.Run ⟨w, []⟩ s) : s.Accounted w.model := by
  have hstart : Owned w.model (⟨w, []⟩ : Session α).workspace.model [] := Owned.start hm
  exact (hstart.run hm hobjective hrun).accounted hm hobjective

/-- A solver that never finds a point. -/
def Solver.blind : Solver Rat := fun _ _ => .ok ⟨.infeasible, 0, 0, none⟩

/-- The absolute value formulated twice; the second formulation is given other bounds and evaluated, and
then the first one is removed. -/
theorem session_accounted_absolute :
    ∃ s : Session Rat, Session.Run ⟨.ofModel (.empty "model"), []⟩ s ∧
      s.formulations.map (·.body?.isSome) = [false, true] ∧ s.Accounted (.empty "model") := by
  have hrun : (match formulateNetwork .blind none (.absolute "output") (.ofModel (.empty "model")) with
      | .ok f w₁ =>
        match formulateNetwork .blind none (.absolute "fast") w₁ with
        | .ok g w₂ =>
          match g.replaceBigM (.int 1) (.int (-1)) ⟨.ok 0, .ok (.ofVector [0]), .ok 0⟩
            ⟨.ok 2, .ok (.ofVector [2]), .ok 2⟩ w₂ with
          | .ok ⟨g', none⟩ w₃ =>
            match forwardPass .blind g' (.ok (.ofVector [1 / 2])) w₃ with
            | .ok _ w₄ =>
              match f.remove w₄ with
              | .ok f' _ => decide ([f', g'].map (·.body?.isSome) = [false, true])
              | _ => false
            | _ => false
          | _ => false
        | _ => false
      | _ => false) = true := by decide +kernel
  split at hrun
  · rename_i f w₁ hfirst
    split at hrun
    · rename_i g w₂ hsecond
      split at hrun
      · rename_i g' w₃ hrevise
        split at hrun
        · rename_i e w₄ heval
          split at hrun
          · rename_i f' w₅ hremove
            have hbuilt : Session.Run ⟨.ofModel (.empty "model"), []⟩ ⟨w₂, [f, g]⟩ :=
              (Session.Run.refl.step (.build _ _ _ (BuildArguments.faithful_absolute "output") hfirst)).step
                (.build _ _ _ (BuildArguments.faithful_absolute "fast") hsecond)
            have hrevised : Session.Run ⟨.ofModel (.empty "model"), []⟩ ⟨w₃, [f, g']⟩ :=
              hbuilt.step (.revise (i := 1) ⟨.int 1, .int (-1), _, _⟩ rfl hrevise)
            have hr : Session.Run ⟨.ofModel (.empty "model"), []⟩ ⟨w₅, [f', g']⟩ :=
              (hrevised.step (.evaluate (i := 1) _ _ rfl heval)).step (.remove (i := 0) rfl hremove)
            exact ⟨_, hr, of_decide_eq_true hrun, session_accounted (Model.wellFormed_empty "model")
              (fun t ht => absurd ht List.not_mem_nil) hr⟩
          · cases hrun
        · cases hrun
      · cases hrun
    · cases hrun
  · cases hrun

end ReluMilp
