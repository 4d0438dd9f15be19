import ReluMilp.Proofs.Jobs
import ReluMilp.Proofs.Passes
import ReluMilp.Proofs.Restoring

/-!
# Parameters in force

Settings that are given to a build are set on the model, where they stay for what is solved later.

* `Action.KeepsParameters` — a forward pass leaves the parameters as they are;
* `forwardPass_ending`, `forwardPasses_ending` — solvers that agree under them answer alike;
* `formulateNetwork_ending`, `formulateNetwork_refused`, `formulateNetwork_parameters` — a build on models
  that differ in nothing but earlier parameters, and the parameters that it leaves;
* `settings_govern` — such builds and the forward passes after them;
* `settings_outlived_absolute` — an earlier time limit outlives settings that ask for none.
-/

namespace ReluMilp

/-! ### Forward passes -/

namespace Action

variable {β : Type}

/-- An action that leaves the parameters of the model as they are, whether it fails or not. -/
def KeepsParameters (act : Action Rat β) : Prop :=
  ∀ w, (act.ending w).2.parameters = w.model.parameters

end Action

/-- The parameters of the model are those before. -/
def Workspace.SameParameters (w v : Workspace Rat) : Prop := v.model.parameters = w.model.parameters

theorem frame_sameParameters : Workspace.Frame Workspace.SameParameters where
  refl _ := rfl
  trans _ _ _ h h' := h'.trans h

theorem Action.keepsParameters_iff {β : Type} (act : Action Rat β) :
    act.KeepsParameters ↔ act.Respects Workspace.SameParameters := by
  refine forall_congr' fun w => ?_
  unfold Action.ending Action.leaves
  cases act w with
  | ok b v => exact Iff.rfl
  | error f v => exact Iff.rfl

theorem solve_keepsParameters (solver : Solver Rat) : (Action.solve solver).KeepsParameters := by
  refine (Action.keepsParameters_iff _).2 fun w => ?_
  have hsame := (solve_aims solver w).model
  unfold Workspace.SameParameters
  rw [hsame]

theorem solveFixed_keepsParameters (solver : Solver Rat) (ids : List VarId) (v : List Rat) :
    (solveFixed solver ids v).KeepsParameters := by
  intro w
  rw [solveFixed_of_defined solver ids (any_isUndefined v), Action.ending_bracket]
  exact solve_keepsParameters solver _

theorem settle_keepsParameters : (Action.settle : Action Rat Unit).KeepsParameters :=
  (Action.keepsParameters_iff _).2 fun w => congrArg Model.parameters w.settled_model

theorem forwardPass_keepsParameters (solver : Solver Rat) (f : Formulation Rat) (t : Reading Rat) :
    (forwardPass solver f t).KeepsParameters := by
  refine (Action.keepsParameters_iff _).2 (frame_sameParameters.bind (frame_sameParameters.ofExcept t) fun t => ?_)
  cases f.body? with
  | none => exact frame_sameParameters.throw _
  | some b =>
    dsimp only
    split
    · exact frame_sameParameters.throw _
    refine frame_sameParameters.bind ((Action.keepsParameters_iff _).1 settle_keepsParameters) fun _ => ?_
    have hsolve := (Action.keepsParameters_iff _).1 (solveFixed_keepsParameters solver b.inputs t.entries)
    refine frame_sameParameters.bind hsolve fun o => ?_
    cases o.point with
    | none => exact frame_sameParameters.pure _
    | some x => exact frame_sameParameters.pure _

section Passes

variable {solver solver' : Solver Rat} {p : Parameters} {w w' : Workspace Rat}

theorem solveFixed_ending (h : solver.AlikeUnder p solver') (ids : List VarId) (v : List Rat)
    (hw : w.model = w'.model) (hp : w.model.parameters = p) :
    (solveFixed solver ids v).ending w = (solveFixed solver' ids v).ending w' := by
  have hsolve : (Action.solve solver).ending (w.withModel (w.model.setBounds (fixedBounds ids v))) =
      (Action.solve solver').ending (w'.withModel (w.model.setBounds (fixedBounds ids v))) :=
    solve_ending h rfl hp
  rw [solveFixed_of_defined solver ids (any_isUndefined v),
    solveFixed_of_defined solver' ids (any_isUndefined v), Action.ending_bracket, Action.ending_bracket,
    ← hw, hsolve]

theorem forwardPass_ending (h : solver.AlikeUnder p solver') (f : Formulation Rat) (t : Reading Rat)
    (hw : w.model = w'.model) (hp : w.model.parameters = p) :
    (forwardPass solver f t).ending w = (forwardPass solver' f t).ending w' := by
  refine Action.ending_bind (Action.ofExcept_steady t w w' hw) fun t v v' hv hm => ?_
  obtain ⟨-, rfl⟩ := Action.ofExcept_eq_ok.1 hv
  cases f.body? with
  | none => exact congrArg (Prod.mk _) hm
  | some b =>
    dsimp only
    split
    · exact congrArg (Prod.mk _) hm
    refine Action.ending_bind (Action.settle_steady w v' hm) fun _ u u' hu hmu => ?_
    have hpu : u.model.parameters = p := by rw [Action.settle_eq_ok.1 hu, Workspace.settled_model, hp]
    refine Action.ending_bind (solveFixed_ending h b.inputs t.entries hmu hpu) fun o u u' _ hu => ?_
    cases o.point with
    | none => exact Action.pure_steady _ u u' hu
    | some x => exact Action.pure_steady _ u u' hu

theorem Action.ending_attempt {β : Type} (act : Action Rat β) (w : Workspace Rat) :
    act.attempt.ending w = (.ok (act.ending w).1, (act.ending w).2) := by
  unfold ending attempt
  cases act w with
  | ok b v => rfl
  | error f v => rfl

/-- Solvers that agree under the parameters of a model answer any inputs alike. -/
theorem forwardPasses_ending (h : solver.AlikeUnder p solver') (f : Formulation Rat)
    (ts : List (Reading Rat)) (hw : w.model = w'.model) (hp : w.model.parameters = p) :
    (forwardPasses solver f ts).ending w = (forwardPasses solver' f ts).ending w' := by
  unfold forwardPasses
  induction ts generalizing w w' with
  | nil => exact Action.pure_steady _ w w' hw
  | cons t ts ih =>
    rw [List.mapM_cons, List.mapM_cons]
    have hpass : ((forwardPass solver f t).attempt).ending w =
        ((forwardPass solver' f t).attempt).ending w' := by
      rw [Action.ending_attempt, Action.ending_attempt, forwardPass_ending h f t hw hp]
    refine Action.ending_bind hpass fun e v v' hv hm => ?_
    have hpv : v.model.parameters = p := by
      have hkept := forwardPass_keepsParameters solver f t w
      have hend := Action.ending_of_eq_ok hv
      rw [Action.ending_attempt] at hend
      rw [(Prod.mk.inj hend).2, hp] at hkept
      exact hkept
    refine Action.ending_bind (ih hm hpv) fun _ u u' _ hu => Action.pure_steady _ u u' hu

end Passes

/-! ### Builds with settings -/

section Builds

variable {solver solver' : Solver Rat} {s : Settings} {a : BuildArguments Rat} {w w' : Workspace Rat}

/-- Models that differ in nothing but their parameters are the same under the same parameters. -/
theorem withParameters_eq {m m' : Model Rat} (h : m.problem = m'.problem) (p : Parameters) :
    { m with parameters := p } = { m' with parameters := p } :=
  congrArg (fun n : Model Rat => { n with parameters := p }) h

theorem formulateNetwork_ending (hset : s.Accepted) (hw : w.model.problem = w'.model.problem)
    (hlimit : 0 < s.timeLimit ∨ w.model.parameters.timeLimit = w'.model.parameters.timeLimit)
    (hs : solver.AlikeUnder ((Jobs.ofValue a.jobs).parameters s (s.inForce w.model.parameters)) solver') :
    (formulateNetwork solver (some s) a).ending w = (formulateNetwork solver' (some s) a).ending w' := by
  unfold formulateNetwork
  refine Action.ending_bind ?_ fun _ u u' hu hm => ?_
  · rw [Action.ending_of_eq_ok (hset.changeParameters w), Action.ending_of_eq_ok (hset.changeParameters w'),
      s.inForce_eq hlimit]
    exact congrArg (Prod.mk _) (withParameters_eq hw _)
  · rw [hset.changeParameters] at hu
    cases hu
    exact BuildArguments.build_ending hm hs

theorem formulateNetwork_refused (hset : ¬s.Accepted) (solver : Solver Rat) (a : BuildArguments Rat)
    (w : Workspace Rat) : ∃ v, formulateNetwork solver (some s) a w =
      .error (if s.threads.toNat < Parameters.threadRange then .refused else .overflow) v := by
  have hchange : Action.changeParameters s.changes w =
      .error (if s.threads.toNat < Parameters.threadRange then .refused else .overflow)
        { w with model := { w.model with parameters := { w.model.parameters with output := !s.silent } } } := by
    unfold Action.changeParameters
    rw [Settings.setAll_refused hset]
  exact ⟨_, Action.bind_of_eq_error hchange⟩

theorem formulateNetwork_parameters {f : Formulation Rat}
    (h : formulateNetwork solver (some s) a w = .ok f w') :
    w'.model.parameters = s.inForce w.model.parameters := by
  obtain ⟨_, u, hchange, hrest⟩ := Action.bind_eq_ok.1 h
  obtain ⟨r, u', hreq, hbuild⟩ := Action.bind_eq_ok.1 hrest
  obtain ⟨-, rfl⟩ := Action.ofExcept_eq_ok.1 hreq
  rw [(Settings.accepted_of_changeParameters hchange).changeParameters] at hchange
  have hp := congrArg (fun m : Model Rat => m.parameters)
    (congrArg Workspace.model (EStateM.Result.ok.inj hchange).2)
  exact (Request.build_retains hbuild).parameters.trans hp.symm

/-- Settings that are given to a build govern it. On models that differ in nothing but earlier parameters it
ends with the same result or fault, if the settings bring a time limit or the earlier ones were the
same; and the forward passes after it have the same answers. The solves in place and those of forward
passes take place under what the settings ask for, with the earlier time limit if they ask for none: a solver
that is another one under any other parameters does the same. -/
theorem settings_govern (hw : w.model.problem = w'.model.problem)
    (hlimit : 0 < s.timeLimit ∨ w.model.parameters.timeLimit = w'.model.parameters.timeLimit)
    (hs : solver.AlikeUnder (s.inForce w.model.parameters) solver')
    (hcopies : Jobs.ofValue a.jobs ≠ .inPlace → solver.AlikeUnder (s.inForce .default) solver') :
    ((formulateNetwork solver (some s) a).ending w).1 = ((formulateNetwork solver' (some s) a).ending w').1 ∧
      ∀ f v, formulateNetwork solver (some s) a w = .ok f v →
        v.model.parameters = s.inForce w.model.parameters ∧
        ∃ v', formulateNetwork solver' (some s) a w' = .ok f v' ∧ v'.model = v.model ∧
          ∀ ts, (forwardPasses solver f ts).ending v = (forwardPasses solver' f ts).ending v' := by
  by_cases hset : s.Accepted
  · have hbuild : solver.AlikeUnder ((Jobs.ofValue a.jobs).parameters s (s.inForce w.model.parameters))
        solver' := by
      unfold Jobs.parameters
      rw [hset.setAll]
      cases hjobs : Jobs.ofValue a.jobs with
      | inPlace => exact hs
      | onCopies => exact hcopies (by rw [hjobs]; exact nofun)
      | none f => exact hcopies (by rw [hjobs]; exact nofun)
    have hend := formulateNetwork_ending (a := a) hset hw hlimit hbuild
    refine ⟨congrArg Prod.fst hend, fun f v h => ?_⟩
    obtain ⟨v', h', hm⟩ := Action.ok_of_ending h hend
    have hp := formulateNetwork_parameters h
    exact ⟨hp, v', h', hm, fun ts => forwardPasses_ending hs f ts hm.symm hp⟩
  · obtain ⟨v, hv⟩ := formulateNetwork_refused hset solver a w
    obtain ⟨v', hv'⟩ := formulateNetwork_refused hset solver' a w'
    refine ⟨?_, fun f u h => ?_⟩
    · unfold Action.ending
      rw [hv, hv']
    · rw [hv] at h
      cases h

end Builds

/-- The exact solver and the one that keeps its time limit agree where the limit is not over at once. -/
theorem punctual_alike {p : Parameters} (h : p.expired = false) : Solver.punctual.AlikeUnder p .ideal :=
  fun k _ _ hm => punctual_of_not_expired k (hm ▸ h)

/-- With a limit of a minute, an earlier one that was over at once makes no difference, and none that matters
is in force. -/
theorem settings_govern_absolute :
    ∃ f v v', formulateNetwork .punctual (some { Settings.default with timeLimit := 60 })
        (.absolute "standard") .hurried = .ok f v ∧
      v.model.parameters.timeLimit = 60 ∧
      formulateNetwork .ideal (some { Settings.default with timeLimit := 60 }) (.absolute "standard")
        (.ofModel (.empty "model")) = .ok f v' ∧
      v'.model = v.model ∧
      ∀ ts, (forwardPasses .punctual f ts).ending v = (forwardPasses .ideal f ts).ending v' := by
  have hbuild : Action.succeeds (formulateNetwork .punctual (some { Settings.default with timeLimit := 60 })
      (.absolute "standard")) .hurried = true := by decide +kernel
  obtain ⟨f, v, h⟩ := Action.exists_of_succeeds hbuild
  have hlimit : (Settings.inForce { Settings.default with timeLimit := 60 }
      Workspace.hurried.model.parameters).expired = false := by decide +kernel
  have hplace : Jobs.ofValue (BuildArguments.absolute "standard").jobs = .inPlace := rfl
  have hpos : 0 < ({ Settings.default with timeLimit := 60 } : Settings).timeLimit := by decide +kernel
  obtain ⟨-, hruns⟩ := @settings_govern .punctual .ideal { Settings.default with timeLimit := 60 }
    (.absolute "standard") .hurried (.ofModel (.empty "model")) rfl (.inl hpos) (punctual_alike hlimit)
    (fun hjobs => absurd hplace hjobs)
  obtain ⟨hp, v', h', hm, hpasses⟩ := hruns f v h
  refine ⟨f, v, v', h, ?_, h', hm, hpasses⟩
  rw [hp]
  decide +kernel

/-- A forward pass through the absolute value that was built with an exact solver. -/
theorem forwardPass_absolute {solver : Solver Rat} {s : Settings} {f : Formulation Rat} {w : Workspace Rat}
    (hs : solver.Exact)
    (h : formulateNetwork solver (some s) (.absolute "standard") (.ofModel (.empty "model")) = .ok f w)
    (hobj : ∀ t ∈ w.model.objective.expression.terms, t.var ∈ f.vars) :
    ((forwardPass solver f (.ok (.ofVector [1 / 2]))).ending w).1 = .ok (.values [1 / 2]) := by
  obtain ⟨hn, -, b, hready⟩ := ready_of_prepared hs.sound rfl rfl .refl rfl rfl h .refl hobj
  obtain ⟨w', hpass, -⟩ := forwardPass_eq hs hready (.ok (.ofVector [1 / 2]))
  have hin : (BuildArguments.absolute "standard").Admits f.network [1 / 2] := by
    refine ⟨liesBetween_single.2 ⟨1 / 2, rfl, by norm_num, by norm_num⟩, fun hmode => ?_⟩
    exact absurd hmode (by decide +kernel)
  have heval : f.network.eval (Tensor.ofVector [1 / 2]).entries = [1 / 2] := by
    rw [← Except.ok.inj hn]
    decide +kernel
  have hlen : (Tensor.ofVector [1 / 2]).entries.length = f.network.inputs := by
    rw [← Except.ok.inj hn]
    rfl
  have hend := Action.ending_of_eq_ok hpass
  rw [Action.ending_attempt, answer_of_admitted hlen hin, heval] at hend
  exact Except.ok.inj (Prod.mk.inj hend).1

/-- Settings that ask for no limit leave an earlier one in force. The solves of the build are then stopped by
it, so that the output keeps the bound that goes through the intervals instead of the exact one, and so
is a forward pass, which has no answer for an input that it has an answer for otherwise. -/
theorem settings_outlived_absolute :
    ∃ f g v v', formulateNetwork .punctual (some .default) (.absolute "standard") .hurried = .ok f v ∧
      formulateNetwork .punctual (some .default) (.absolute "standard") (.ofModel (.empty "model")) = .ok g v' ∧
      v.model.parameters.timeLimit = 1e-9 ∧ f.table = [[⟨1, -1⟩, ⟨1, -1⟩], [⟨2, 0⟩]] ∧
      at? g.table (1, 0) = some ⟨1, 0⟩ ∧
      ((forwardPass .punctual f (.ok (.ofVector [1 / 2]))).ending v).1 =
        .ok (.infeasible [1 / 2] .timeLimit) ∧
      ((forwardPass .punctual g (.ok (.ofVector [1 / 2]))).ending v').1 = .ok (.values [1 / 2]) := by
  have hrun : (match formulateNetwork .punctual (some .default) (.absolute "standard") .hurried with
      | .ok f v => decide (f.table = [[⟨1, -1⟩, ⟨1, -1⟩], [⟨2, 0⟩]]) &&
        match (forwardPass .punctual f (.ok (.ofVector [1 / 2]))).ending v with
        | (.ok (.infeasible input .timeLimit), _) => decide (input = [1 / 2])
        | _ => false
      | _ => false) = true := by decide +kernel
  have hlimit : (Settings.default.inForce .default).expired = false := by decide +kernel
  have hbuild : Action.succeeds (formulateNetwork .punctual (some .default) (.absolute "standard"))
      (.ofModel (.empty "model")) = true := by decide +kernel
  obtain ⟨g, v', hg⟩ := Action.exists_of_succeeds hbuild
  -- without an earlier limit, the solver is the exact one
  obtain ⟨v'', hideal, hm⟩ := Action.ok_of_ending hg
    (formulateNetwork_ending (by decide) rfl (.inr rfl) (punctual_alike hlimit))
  have hobj : (match formulateNetwork .ideal (some .default) (.absolute "standard")
        (.ofModel (.empty "model")) with
      | .ok f w => decide (∀ t ∈ w.model.objective.expression.terms, t.var ∈ f.vars)
      | _ => false) = true := by decide +kernel
  rw [hideal] at hobj
  split at hrun
  · rename_i f v hf
    obtain ⟨htable, hpass⟩ := Bool.and_eq_true_iff.1 hrun
    refine ⟨f, g, v, v', hf, hg, ?_, of_decide_eq_true htable, ?_, ?_, ?_⟩
    · rw [formulateNetwork_parameters hf]
      decide +kernel
    · exact bound_absolute exact_ideal rfl rfl rfl hideal
    · split at hpass
      · rename_i input m hend
        rw [hend, of_decide_eq_true hpass]
      · cases hpass
    · rw [forwardPass_ending (punctual_alike hlimit) g _ hm.symm (formulateNetwork_parameters hg)]
      exact forwardPass_absolute exact_ideal hideal (of_decide_eq_true hobj)
  · cases hrun

end ReluMilp
