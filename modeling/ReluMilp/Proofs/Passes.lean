import ReluMilp.Proofs.Completeness
import ReluMilp.Proofs.Fixing

/-!
# Forward passes agree with the network

* `Model.Enlarged` — a model that allows exactly the same on the variables it had before;
  `Enlarged.trans`, `Body.Extends.enlarged`;
* `Workspace.Prepared` — networks formulated and objectives set one after the other;
  `Prepared.enlarged`;
* `Formulation.Ready` — what forward passes rely on; `ready_of_prepared`;
* `Network.answer`, `forwardPass_eq` — the answer to one input, after which the model is as
  before;
* `forwardPasses`, `forwardPasses_eq` — many inputs, each with its own answer;
* `forwardPasses_agree` — the same for every network that is formulated.
-/

namespace ReluMilp

/-! ### Enlarged models -/

/-- The second model allows exactly what the first one does on the variables of the first. -/
structure Model.Enlarged (m m' : Model Rat) : Prop where
  wellFormed : m'.WellFormed
  nextVar_le : m.nextVar ≤ m'.nextVar
  keeps : ∀ v ∈ m.vars, v ∈ m'.vars
  not_gapped : ¬m.Gapped → ¬m'.Gapped
  restrict : ∀ x, m'.Feasible x → m.Feasible x
  extend : ∀ x, m.Feasible x → ∃ y, m'.Feasible y ∧ ∀ id < m.nextVar, y id = x id

namespace Model.Enlarged

variable {m m₁ m₂ : Model Rat}

theorem refl (hm : m.WellFormed) : m.Enlarged m :=
  ⟨hm, le_rfl, fun _ hv => hv, fun hgap => hgap, fun _ hx => hx, fun x hx => ⟨x, hx, fun _ _ => rfl⟩⟩

theorem trans (h₁ : m.Enlarged m₁) (h₂ : m₁.Enlarged m₂) : m.Enlarged m₂ where
  wellFormed := h₂.wellFormed
  nextVar_le := h₁.nextVar_le.trans h₂.nextVar_le
  keeps := fun v hv => h₂.keeps v (h₁.keeps v hv)
  not_gapped := fun hgap => h₂.not_gapped (h₁.not_gapped hgap)
  restrict := fun x hx => h₁.restrict x (h₂.restrict x hx)
  extend := by
    intro x hx
    obtain ⟨y, hy, hyx⟩ := h₁.extend x hx
    obtain ⟨z, hz, hzy⟩ := h₂.extend y hy
    exact ⟨z, hz, fun id hid => (hzy id (hid.trans_le h₁.nextVar_le)).trans (hyx id hid)⟩

theorem freeStand {ids : List VarId} (h : m.Enlarged m₁) (hs : FreeStand m ids) : FreeStand m₁ ids :=
  fun id hid => (hs id hid).imp fun _ => h.keeps _

end Model.Enlarged

/-- A network on new variables enlarges a model if some input has the property. -/
theorem Body.Extends.enlarged {b : Body} {n : Network Rat} {P : List Rat → Prop} {m m' : Model Rat}
    (h : b.Extends n P m m') (hm : m.WellFormed) (hP : ∃ v, v.length = n.inputs ∧ P v) :
    m.Enlarged m' where
  wellFormed := h.wellFormed
  nextVar_le := h.nextVar_le
  keeps := h.keeps
  not_gapped := h.not_gapped
  restrict := fun x hx => ((h.feasible_iff x).1 hx).1
  extend := by
    intro x hx
    obtain ⟨v, hlen, hv⟩ := hP
    obtain ⟨y, hy, -, hoff, -⟩ := h.exists_extension hm (fun _ => false) hx hlen hv
    exact ⟨y, hy, fun id hid => hoff id fun hmem => absurd hid (not_lt.2 (h.vars_new id hmem))⟩

/-- Without bounds on the output some input is admitted. -/
theorem BuildArguments.Asks.exists_admitted {a : BuildArguments Rat} {r : Request Rat}
    (h : a.Asks r) (hr : r.WellFormed) (hmode : Mode.ofValue a.mode ≠ .ok .output) :
    ∃ v, v.length = r.network.inputs ∧ a.Admits r.network v := by
  obtain ⟨v, hin⟩ := h.exists_mem_box
  have hadm : a.Admits r.network v := by
    refine h.admits_iff.2 ⟨hin, fun range hp => absurd ?_ hmode⟩
    rw [h.mode, hp]
    rfl
  exact ⟨v, h.length_eq hr hadm, hadm⟩

/-- Workspaces that formulating networks one after the other leads to, without given bounds and without
bounds on the outputs, and with any objectives set meanwhile. -/
inductive Workspace.Prepared (w : Workspace Rat) : Workspace Rat → Prop
  | refl : Prepared w w
  | formulated {v v' : Workspace Rat} {solver : Solver Rat} {settings : Option Settings}
      {a : BuildArguments Rat} {f : Formulation Rat} : Prepared w v → solver.Sound →
      a.boundsUpper = .absent → a.boundsLower = .absent → Mode.ofValue a.mode ≠ .ok .output →
      formulateNetwork solver settings a v = .ok f v' → Prepared w v'
  | aimed {v v' : Workspace Rat} {e : Linear Rat} {maximize : Bool} {u : Unit} : Prepared w v →
      aim e maximize v = .ok u v' → Prepared w v'

theorem Workspace.Prepared.enlarged {w w' : Workspace Rat} (h : w.Prepared w')
    (hm : w.model.WellFormed) (hgap : ¬w.model.Gapped) : w.model.Enlarged w'.model := by
  induction h with
  | refl => exact .refl hm
  | formulated _ hsound hupper hlower hmode hbuild ih =>
    obtain ⟨r, b, hasks, hr, -, -, hext⟩ :=
      formulateNetwork_extends hsound (fun _ hbad => absurd hbad (ih.not_gapped hgap)) ih.wellFormed
        hupper hlower hbuild
    exact ih.trans (hext.enlarged ih.wellFormed (hasks.exists_admitted hr hmode))
  | aimed _ haim ih =>
    have hsame := setObjective_eq_ok (aim_eq_ok haim).1
    refine ih.trans ?_
    rw [hsame]
    exact ⟨Model.wellFormed_objective ih.wellFormed _, le_rfl, fun _ hv => hv, fun hgap => hgap,
      fun _ hx => hx, fun x hx => ⟨x, hx, fun _ _ => rfl⟩⟩

/-! ### Formulations that forward passes go through -/

/-- A formulation in a model that restricts the inputs to those with a property, with an objective over
its variables. -/
structure Formulation.Ready (f : Formulation Rat) (b : Body) (P : List Rat → Prop) (m : Model Rat) :
    Prop where
  body : f.body? = some b
  wellFormed : m.WellFormed
  shaped : b.Shaped f.network
  inputs : FreeStand m b.inputs
  evaluates : ∀ x, m.Feasible x → P (b.inputs.map x) ∧ b.Evaluates f.network x
  exists_feasible : ∀ v, P v → ∃ x, m.Feasible x ∧ b.inputs.map x = v
  objective : ∀ t ∈ m.objective.expression.terms, t.var ∈ b.vars

/-- A network that is formulated among others, each of them behind a model without anything in it. -/
theorem ready_of_prepared {solver : Solver Rat} {settings : Option Settings} {a : BuildArguments Rat}
    {f : Formulation Rat} {w₀ w₁ w₂ w : Workspace Rat} (hsound : solver.Sound)
    (hvars : w₀.model.vars = []) (hrows : w₀.model.rows = []) (hbefore : w₀.Prepared w₁)
    (hupper : a.boundsUpper = .absent) (hlower : a.boundsLower = .absent)
    (hbuild : formulateNetwork solver settings a w₁ = .ok f w₂) (hafter : w₂.Prepared w)
    (hobj : ∀ t ∈ w.model.objective.expression.terms, t.var ∈ f.vars) :
    a.network = .ok f.network ∧ (∀ v, a.Admits f.network v → v.length = f.network.inputs) ∧
      ∃ b, f.Ready b (a.Admits f.network) w.model := by
  have hx₀ : w₀.model.Feasible fun _ => 0 := by simp [Model.Feasible, hvars, hrows]
  have hgap₀ := Model.not_gapped_of_nil hvars
  have h₁ := hbefore.enlarged (Model.wellFormed_of_nil hvars hrows) hgap₀
  have hgap₁ := h₁.not_gapped hgap₀
  obtain ⟨r, b, hasks, hr, hn, hb, hext⟩ :=
    formulateNetwork_extends hsound (fun _ hbad => absurd hbad hgap₁) h₁.wellFormed hupper hlower hbuild
  have h₂ := hafter.enlarged hext.wellFormed (hext.not_gapped hgap₁)
  obtain ⟨x₁, hx₁, -⟩ := h₁.extend _ hx₀
  have hfvars : f.vars = b.vars := by
    unfold Formulation.vars
    rw [hb]
    rfl
  rw [← hn] at hext
  have hlen : ∀ v, a.Admits f.network v → v.length = f.network.inputs := by
    intro v hv
    rw [hn] at hv ⊢
    exact hasks.length_eq hr hv
  have hnet := hasks.network
  rw [← hn] at hnet
  refine ⟨hnet, hlen, b, hb, h₂.wellFormed, hext.shaped, h₂.freeStand hext.inputs, fun x hx => ?_,
    fun v hv => ?_, ?_⟩
  · exact ((hext.feasible_iff x).1 (h₂.restrict x hx)).2
  · obtain ⟨y, hy, hin, -⟩ := hext.exists_extension h₁.wellFormed (fun _ => false) hx₁ (hlen v hv) hv
    obtain ⟨x, hx, hxy⟩ := h₂.extend y hy
    refine ⟨x, hx, ?_⟩
    rw [← hin]
    refine List.map_congr_left fun id hid => hxy id ?_
    obtain ⟨name, hmem⟩ := hext.inputs id hid
    exact hext.wellFormed.vars_lt _ hmem
  · rw [← hfvars]
    exact hobj

/-! ### One forward pass -/

/-- Of two evaluations of one input, the second takes the values of the first, and zero or one. -/
theorem Body.Evaluates.value_of_mem {b : Body} {n : Network Rat} {x y : Assignment Rat} {id : VarId}
    (hx : b.Evaluates n x) (hy : b.Evaluates n y) (hin : b.inputs.map x = b.inputs.map y)
    (hid : id ∈ b.vars) : y id = x id ∨ y id = 0 ∨ y id = 1 := by
  obtain ⟨hhidden, hout⟩ := hx.agree hy hin
  unfold Body.vars at hid
  rcases List.mem_append.1 hid with hid | hid
  · rcases List.mem_append.1 hid with hid | hid
    · exact .inl (List.map_inj_left.1 hin id hid).symm
    · obtain ⟨us, hus, hid⟩ := List.mem_flatMap.1 hid
      obtain ⟨u, hu, hid⟩ := mem_unitVars.1 hid
      have hmem : u ∈ b.hidden.flatten := List.mem_flatten.2 ⟨us, hus, hu⟩
      obtain ⟨_, _, hagree⟩ := hhidden.exists_of_mem hmem
      rcases hid with rfl | rfl | rfl
      · exact .inl hagree.value.symm
      · exact .inl hagree.slack.symm
      · obtain ⟨_, _, hrect⟩ := hy.hidden.exists_of_mem hmem
        exact .inr hrect.switch
  · exact .inl (List.map_inj_left.1 hout id hid).symm

namespace Formulation.Ready

variable {f : Formulation Rat} {b : Body} {P : List Rat → Prop} {m : Model Rat} {v : List Rat}

/-- What is feasible once the inputs are fixed. -/
theorem feasible_fixed_iff (hf : f.Ready b P m) (hlen : v.length = f.network.inputs)
    {x : Assignment Rat} :
    (m.setBounds (fixedBounds b.inputs v)).Feasible x ↔ m.Feasible x ∧ b.inputs.map x = v := by
  have hn := hf.shaped.vars_nodup
  unfold Body.vars at hn
  rw [List.append_assoc] at hn
  exact feasible_fixed hf.wellFormed hf.inputs hn.of_append_left (hlen.trans hf.shaped.inputs.symm)

/-- With fixed inputs that have the property there is a best assignment, whatever the objective. -/
theorem exists_best_fixed (hf : f.Ready b P m) (hlen : v.length = f.network.inputs) (hv : P v) :
    ∃ x, (m.setBounds (fixedBounds b.inputs v)).Best x := by
  obtain ⟨x, hx, hin⟩ := hf.exists_feasible v hv
  refine exists_best ⟨x, (hf.feasible_fixed_iff hlen).2 ⟨hx, hin⟩⟩ fun t ht => ?_
  refine (Set.toFinite {x t.var, 0, 1}).subset ?_
  rintro _ ⟨y, hy, rfl⟩
  obtain ⟨hy, hyin⟩ := (hf.feasible_fixed_iff hlen).1 hy
  exact (hf.evaluates x hx).2.value_of_mem (hf.evaluates y hy).2 (hin.trans hyin.symm)
    (hf.objective t ht)

/-- The point and the status of an exact solve with fixed inputs. -/
theorem outcome_fixed (hf : f.Ready b P m) (hlen : v.length = f.network.inputs) {o : Outcome Rat}
    (ho : o.Exact (m.setBounds (fixedBounds b.inputs v))) :
    (P v ∧ ∃ x, o.point = some x ∧ b.outputs.map x = f.network.eval v) ∨
      (¬P v ∧ o.point = none ∧ o.status = .infeasible) := by
  cases ho with
  | @best x hbest =>
    obtain ⟨hx, hin⟩ := (hf.feasible_fixed_iff hlen).1 hbest.1
    obtain ⟨hv, heval⟩ := hf.evaluates x hx
    rw [hin] at hv
    refine .inl ⟨hv, x, rfl, ?_⟩
    rw [heval.outputs_eq, hin]
  | infeasible hnone =>
    refine .inr ⟨fun hv => ?_, rfl, rfl⟩
    obtain ⟨x, hx, hin⟩ := hf.exists_feasible v hv
    exact hnone x ((hf.feasible_fixed_iff hlen).2 ⟨hx, hin⟩)
  | @endless _ _ _ x hfeas hnobest =>
    obtain ⟨hx, hin⟩ := (hf.feasible_fixed_iff hlen).1 hfeas
    have hv := (hf.evaluates x hx).1
    rw [hin] at hv
    obtain ⟨y, hy⟩ := hf.exists_best_fixed hlen hv
    exact absurd hy (hnobest y)

end Formulation.Ready

open Classical in
/-- The answer to an input: one of the wrong length is refused, one with the property has the values of
the network, and for any other the model is infeasible. -/
noncomputable def Network.answer (n : Network Rat) (P : List Rat → Prop) :
    Reading Rat → Except Fault (Evaluation Rat)
  | .error e => .error e
  | .ok t =>
    if t.entries.length ≠ n.inputs then
      .error (.parameter (.inputLength t.entries.length n.inputs))
    else if P t.entries then (n.forward (.ofVector t.entries)).map fun u => .values u.entries
    else .ok (.infeasible t.entries .infeasible)

section Answer

variable {n : Network Rat} {P : List Rat → Prop} {t : Tensor Rat}

theorem answer_of_length (h : t.entries.length ≠ n.inputs) :
    n.answer P (.ok t) = .error (.parameter (.inputLength t.entries.length n.inputs)) := if_pos h

theorem answer_of_admitted (h : t.entries.length = n.inputs) (hP : P t.entries) :
    n.answer P (.ok t) = .ok (.values (n.eval t.entries)) := by
  unfold Network.answer
  dsimp only
  rw [if_neg (not_not.2 h), if_pos hP, n.forward_ofVector h]
  rfl

theorem answer_of_refused (h : t.entries.length = n.inputs) (hP : ¬P t.entries) :
    n.answer P (.ok t) = .ok (.infeasible t.entries .infeasible) := by
  unfold Network.answer
  dsimp only
  rw [if_neg (not_not.2 h), if_neg hP]

end Answer

/-- A forward pass gives the answer to its input and leaves the model as it was. -/
theorem forwardPass_eq {solver : Solver Rat} {f : Formulation Rat} {b : Body} {P : List Rat → Prop}
    {w : Workspace Rat} (hexact : solver.Exact) (hf : f.Ready b P w.model) (t : Reading Rat) :
    ∃ w', (forwardPass solver f t).attempt w = .ok (f.network.answer P t) w' ∧
      w'.model = w.model := by
  unfold Action.attempt
  cases t with
  | error e => exact ⟨w, rfl, rfl⟩
  | ok t =>
    by_cases hlen : t.entries.length = f.network.inputs
    · have hsettled : w.settled.model.WellFormed := w.settled_model ▸ hf.wellFormed
      obtain ⟨o, w', hsolve, hw', ho⟩ := solveFixed_eq hexact b.inputs t.entries hsettled
      rw [w.settled_model] at hw' ho
      rw [forwardPass_settled solver hf.body (hlen.trans hf.shaped.inputs.symm), Action.bind_of_eq_ok hsolve]
      obtain ⟨hP, x, hpoint, hout⟩ | ⟨hP, hpoint, hstatus⟩ := hf.outcome_fixed hlen ho
      · rw [hpoint, answer_of_admitted hlen hP, ← hout]
        exact ⟨w', rfl, hw'⟩
      · rw [hpoint, answer_of_refused hlen hP, hstatus]
        exact ⟨w', rfl, hw'⟩
    · rw [answer_of_length hlen, ← hf.shaped.inputs]
      rw [← hf.shaped.inputs] at hlen
      have hread : (Action.ofExcept (.ok t) : Action Rat (Tensor Rat)) w = .ok t w := rfl
      unfold forwardPass
      rw [Action.bind_of_eq_ok hread, hf.body]
      dsimp only
      rw [if_pos hlen]
      exact ⟨w, rfl, rfl⟩

/-! ### Forward passes one after the other -/

/-- Forward passes for inputs one after the other, whether they fail or not. -/
def forwardPasses {α : Type} [Scalar α] (solver : Solver α) (f : Formulation α)
    (ts : List (Reading α)) : Action α (List (Except Fault (Evaluation α))) :=
  ts.mapM fun t => (forwardPass solver f t).attempt

/-- Every input gets its own answer, whatever was evaluated before. -/
theorem forwardPasses_eq {solver : Solver Rat} {f : Formulation Rat} {b : Body} {P : List Rat → Prop}
    {w : Workspace Rat} (hexact : solver.Exact) (hf : f.Ready b P w.model) (ts : List (Reading Rat)) :
    ∃ w', forwardPasses solver f ts w = .ok (ts.map (f.network.answer P)) w' ∧
      w'.model = w.model := by
  unfold forwardPasses
  induction ts generalizing w with
  | nil => exact ⟨w, rfl, rfl⟩
  | cons t ts ih =>
    obtain ⟨v, hv, hmv⟩ := forwardPass_eq hexact hf t
    rw [← hmv] at hf
    obtain ⟨w', hw', hmw'⟩ := ih hf
    refine ⟨w', ?_, hmw'.trans hmv⟩
    rw [List.mapM_cons, Action.bind_of_eq_ok hv, Action.bind_of_eq_ok hw']
    rfl

/-- A network is formulated without given bounds in a model that holds nothing but networks formulated in
the same way without bounds on the outputs, with any objective over its variables. Any forward passes one after the
other give to each input the answer that belongs to it, and leave the model as it was. -/
theorem forwardPasses_agree {solver builder : Solver Rat} {settings : Option Settings}
    {a : BuildArguments Rat} {f : Formulation Rat} {w₀ w₁ w₂ w : Workspace Rat}
    (hexact : solver.Exact) (hsound : builder.Sound) (hvars : w₀.model.vars = [])
    (hrows : w₀.model.rows = []) (hbefore : w₀.Prepared w₁) (hupper : a.boundsUpper = .absent)
    (hlower : a.boundsLower = .absent) (hbuild : formulateNetwork builder settings a w₁ = .ok f w₂)
    (hafter : w₂.Prepared w) (hobj : ∀ t ∈ w.model.objective.expression.terms, t.var ∈ f.vars) :
    ∃ n, a.network = .ok n ∧
      (∀ v, a.Admits n v → ∃ u, n.forward (Tensor.ofVector v) = .ok (Tensor.ofVector u)) ∧
      ∀ ts, ∃ w', forwardPasses solver f ts w = .ok (ts.map (n.answer (a.Admits n))) w' ∧
        w'.model = w.model := by
  obtain ⟨hn, hlen, b, hf⟩ :=
    ready_of_prepared hsound hvars hrows hbefore hupper hlower hbuild hafter hobj
  exact ⟨f.network, hn, fun v hv => ⟨_, f.network.forward_ofVector (hlen v hv)⟩,
    forwardPasses_eq hexact hf⟩

/-- An input in the box, one outside it and one of the wrong length, with the output as objective. -/
theorem forwardPasses_agree_absolute :
    ∃ (f : Formulation Rat) (w₂ w w' : Workspace Rat),
      formulateNetwork .ideal none (.absolute "fast") (.ofModel (.empty "model")) = .ok f w₂ ∧
      w₂.Prepared w ∧
      forwardPasses .ideal f [.ok (.ofVector [1 / 2]), .ok (.ofVector [5]), .ok (.ofVector [])] w =
        .ok [.ok (.values [1 / 2]), .ok (.infeasible [5] .infeasible),
          .error (.parameter (.inputLength 0 1))] w' ∧
      w'.model = w.model := by
  have hrun : (match formulateNetwork .ideal none (.absolute "fast") (.ofModel (.empty "model")) with
      | .ok f w₂ =>
        match aim ⟨f.vars.map (Term.mk 1), 0⟩ true w₂ with
        | .ok _ w => decide (∀ t ∈ w.model.objective.expression.terms, t.var ∈ f.vars)
        | _ => false
      | _ => false) = true := by decide +kernel
  split at hrun
  · rename_i f w₂ hbuild
    split at hrun
    · rename_i u w haim
      have hprep : w₂.Prepared w := .aimed .refl haim
      obtain ⟨n, hn, -, hpasses⟩ :=
        forwardPasses_agree exact_ideal exact_ideal.sound rfl rfl .refl rfl rfl hbuild hprep
          (of_decide_eq_true hrun)
      cases hn
      obtain ⟨w', hw', hm⟩ :=
        hpasses [.ok (.ofVector [1 / 2]), .ok (.ofVector [5]), .ok (.ofVector [])]
      refine ⟨f, w₂, w, w', hbuild, hprep, ?_, hm⟩
      have hin : (BuildArguments.absolute "fast").Admits .absolute [1 / 2] := by
        refine ⟨⟨_, _, rfl, rfl, ?_, ?_⟩, fun hmode => absurd hmode (by decide +kernel)⟩
        · exact .cons (by norm_num) .nil
        · exact .cons (by norm_num) .nil
      have hout : ¬(BuildArguments.absolute "fast").Admits .absolute [5] := by
        rintro ⟨⟨_, _, hu, -, -, hle⟩, -⟩
        cases hu
        obtain ⟨hle, -⟩ := List.forall₂_cons.1 hle
        exact absurd hle (by norm_num)
      have heval : Network.absolute.eval (Tensor.ofVector [1 / 2]).entries = [1 / 2] := by
        decide +kernel
      rw [List.map_cons, List.map_cons, List.map_cons, List.map_nil, answer_of_admitted rfl hin,
        answer_of_refused rfl hout, answer_of_length (by decide), heval] at hw'
      exact hw'
    · cases hrun
  · cases hrun

end ReluMilp
