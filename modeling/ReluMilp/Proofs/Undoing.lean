import ReluMilp.Proofs.Exchanges
import ReluMilp.Proofs.Fixing
import ReluMilp.Proofs.Restoring

/-!
# Forward passes leave no trace

A forward pass writes two vectors of bounds before the block that sets them back.

* `PassEnd` — the ends of a forward pass and what each of them leaves; `PassEnd.model` — that is the model
  of before;
* `forwardPass_end` — a forward pass comes to one of these ends, whatever it reads and whatever the solver
  does;
* `forwardPass_restores` — the model after any of them.
-/

namespace ReluMilp

section

variable {α : Type} [Scalar α]

/-- How a forward pass ends, and the workspace that it leaves. An input that cannot be read, a formulation that
was removed and an input of another length are refused before anything is touched. An undefined value is
refused by the lower bounds, before a bound is written. Everything else is solved with fixed inputs. -/
inductive PassEnd (solver : Solver α) (f : Formulation α) (w : Workspace α) :
    Reading α → EStateM.Result Fault (Workspace α) (Evaluation α) → Prop
  | unread (e : Fault) : PassEnd solver f w (.error e) (.error e w)
  | removed (t : Tensor α) : f.body? = none → PassEnd solver f w (.ok t) (.error .outOfRange w)
  | misfit {t : Tensor α} {b : Body} : f.body? = some b → t.entries.length ≠ b.inputs.length →
      PassEnd solver f w (.ok t)
        (.error (.parameter (.inputLength t.entries.length b.inputs.length)) w)
  | undefined {t : Tensor α} {b : Body} : f.body? = some b → t.entries.any Scalar.isUndefined = true →
      PassEnd solver f w (.ok t) (.error .missingMember w.settled)
  | failed {t : Tensor α} {b : Body} {e : Fault} : f.body? = some b →
      solver w.attempts (w.model.setBounds (fixedBounds b.inputs t.entries)) = .error e →
      PassEnd solver f w (.ok t) (.error e w.spent)
  | pointless {t : Tensor α} {b : Body} {o : Outcome α} : f.body? = some b →
      solver w.attempts (w.model.setBounds (fixedBounds b.inputs t.entries)) = .ok o → o.point = none →
      PassEnd solver f w (.ok t) (.ok (.infeasible t.entries o.status) w.spent)
  | solved {t : Tensor α} {b : Body} {o : Outcome α} {x : Assignment α} : f.body? = some b →
      solver w.attempts (w.model.setBounds (fixedBounds b.inputs t.entries)) = .ok o → o.point = some x →
      PassEnd solver f w (.ok t) (.ok (.values (b.outputs.map x)) w.spent)

variable {solver : Solver α} {f : Formulation α} {w : Workspace α}

/-- The workspace at the end of a forward pass is that of before, or its changes that waited are made, or only
the attempt of a solve is left. -/
theorem PassEnd.leaves {input : Reading α} (h : PassEnd solver f w input (forwardPass solver f input w)) :
    (forwardPass solver f input).leaves w = w ∨ (forwardPass solver f input).leaves w = w.settled ∨
      (forwardPass solver f input).leaves w = w.spent := by
  unfold Action.leaves
  generalize forwardPass solver f input w = r at h
  cases h with
  | unread e => exact .inl rfl
  | removed t hb => exact .inl rfl
  | misfit hb hlen => exact .inl rfl
  | undefined hb hv => exact .inr (.inl rfl)
  | failed hb hs => exact .inr (.inr rfl)
  | pointless hb hs hx => exact .inr (.inr rfl)
  | solved hb hs hx => exact .inr (.inr rfl)

/-- With values that are defined, the pass ends as the solver does. -/
theorem forwardPass_solve_end {b : Body} {t : Tensor α} (hm : w.model.WellFormed) (hb : f.body? = some b)
    (hlen : t.entries.length = b.inputs.length) (hv : t.entries.any Scalar.isUndefined = false) :
    PassEnd solver f w (.ok t) (forwardPass solver f (.ok t) w) := by
  have hsettled : w.settled.model.WellFormed := w.settled_model.symm ▸ hm
  have hrun := solveFixed_run solver b.inputs hsettled hv
  rw [w.settled_model, w.settled_attempts] at hrun
  have hspent : w.settled.spent = w.spent := by
    unfold Workspace.spent
    rw [w.settled_model, w.settled_attempts]
  rw [hspent] at hrun
  cases hs : solver w.attempts (w.model.setBounds (fixedBounds b.inputs t.entries)) with
  | error e =>
    rw [hs] at hrun
    rw [forwardPass_settled solver hb hlen, Action.bind_of_eq_error hrun]
    exact .failed hb hs
  | ok o =>
    rw [hs] at hrun
    rw [forwardPass_settled solver hb hlen, Action.bind_of_eq_ok hrun]
    cases hx : o.point with
    | none => exact .pointless hb hs hx
    | some x => exact .solved hb hs hx

/-- A forward pass comes to one of its ends, whatever it reads and whatever the solver does. -/
theorem forwardPass_end (solver : Solver α) (f : Formulation α) (input : Reading α) (hm : w.model.WellFormed) :
    PassEnd solver f w input (forwardPass solver f input w) := by
  cases input with
  | error e => exact .unread e
  | ok t =>
    have hread : (Action.ofExcept (.ok t) : Action α (Tensor α)) w = .ok t w := rfl
    cases hb : f.body? with
    | none =>
      unfold forwardPass
      rw [Action.bind_of_eq_ok hread, hb]
      exact .removed t hb
    | some b =>
      by_cases hlen : t.entries.length = b.inputs.length
      · cases hv : t.entries.any Scalar.isUndefined with
        | true =>
          rw [forwardPass_settled solver hb hlen,
            Action.bind_of_eq_error (solveFixed_of_undefined solver b.inputs hv w.settled)]
          exact .undefined hb hv
        | false => exact forwardPass_solve_end hm hb hlen hv
      · unfold forwardPass
        rw [Action.bind_of_eq_ok hread, hb]
        dsimp only
        rw [if_pos hlen]
        exact .misfit hb hlen

/-- However a forward pass ends, with values, without a point under any status, with an input that is refused or
with a fault of the solver, the model is the one that was there before: its variables with the bounds
that they had, its rows and its objective. -/
theorem forwardPass_restores (solver : Solver α) (f : Formulation α) (input : Reading α) {w : Workspace α}
    (hm : w.model.WellFormed) :
    PassEnd solver f w input (forwardPass solver f input w) ∧
      ((forwardPass solver f input).leaves w).model = w.model := by
  have hend := forwardPass_end solver f input hm
  refine ⟨hend, ?_⟩
  obtain hw | hw | hw := hend.leaves
  · rw [hw]
  · rw [hw, w.settled_model]
  · rw [hw, w.spent_model]

end

/-- A solver that fails. -/
def Solver.broken : Solver Float := fun _ _ => .error .refused

/-- The absolute value in a model whose input variable was given other bounds. They are there after an
undefined value, which is refused, and after values with which the solver fails. -/
theorem forwardPass_restores_magnitude :
    ∃ (f : Formulation Float) (w : Workspace Float),
      formulateNetwork .broken none .magnitude (.ofModel (.empty "model")) = .ok f w ∧
      ∀ a ∈ [(0 / 0 : Float), 1 / 0, 3],
        let v := w.withModel (w.model.setBounds [(0, .finite (-2), .posInf)])
        ((forwardPass .broken f (.ok (.ofVector [a]))).leaves v).model = v.model := by
  have hrun : (formulateNetwork .broken none .magnitude).succeeds (.ofModel (.empty "model")) = true := by
    decide +kernel
  obtain ⟨f, w, hbuild⟩ := Action.exists_of_succeeds hrun
  have hempty : (Workspace.ofModel (.empty "model") : Workspace Float).model.WellFormed :=
    Model.wellFormed_empty "model"
  obtain ⟨-, hm, -⟩ := formulateNetwork_placed hempty BuildArguments.faithful_magnitude hbuild
  refine ⟨f, w, hbuild, fun a _ => ?_⟩
  exact (forwardPass_restores .broken f (.ok (.ofVector [a])) (Model.wellFormed_setBounds hm _)).2

end ReluMilp
