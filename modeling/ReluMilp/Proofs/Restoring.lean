import ReluMilp.Proofs.Optima

/-!
# Tightening leaves no trace

What an action leaves when it ends, whether with a result or with a fault, and that tightening leaves the
model that it found.

* `Action.leaves`, `Action.Respects` — the workspace that an action leaves, and a relation of it to the one
  before; `Action.bind_respects`, `Workspace.Frame.bind`, `Workspace.Frame.eachNeuron` — composition;
  `Action.leaves_bracket`, `Action.leaves_onCopy` — what stands around an action;
* `Workspace.Aimed` — at most the objective changed; `neuronOptima_aims`: so it is when the problems of a
  neuron end or fail;
* `Workspace.Untouched` — the model is the one before; `subproblem_untouched`, `onCopy_untouched`,
  `layerOptima_settles`: objective and kinds are back after the first neuron that fails and after the last;
* `tightening_untraced` — layers and arrays, tightened in place or on copies.
-/

namespace ReluMilp

/-! ### What an action leaves -/

namespace Action

variable {α β γ : Type}

/-- The workspace that an action leaves, whether it ends with a result or with a fault. -/
def leaves (act : Action α β) (w : Workspace α) : Workspace α :=
  match act w with
  | .ok _ v => v
  | .error _ v => v

/-- An action leaves only workspaces that are related to the ones it found. -/
def Respects (R : Workspace α → Workspace α → Prop) (act : Action α β) : Prop := ∀ w, R w (act.leaves w)

theorem Respects.of_eq_ok {R : Workspace α → Workspace α → Prop} {act : Action α β} {w v : Workspace α}
    {b : β} (h : act.Respects R) (hrun : act w = .ok b v) : R w v := by
  have hw := h w
  unfold leaves at hw
  rw [hrun] at hw
  exact hw

/-- The second change of a bracket comes after a fault as well. -/
theorem leaves_bracket (before : Model α → Model α) (after : Model α → Model α → Model α)
    (act : Action α β) (w : Workspace α) : (bracket before after act).leaves w =
      (act.leaves (w.withModel (before w.model))).withModel
        (after w.model (act.leaves (w.withModel (before w.model))).model) := by
  unfold leaves bracket
  cases act (w.withModel (before w.model)) with
  | ok b v => rfl
  | error f v => rfl

/-- Of what happens on a copy only the attempts count on. -/
theorem leaves_onCopy {copy : Model α → Except Fault (Model α)} {m : Model α} {w : Workspace α}
    (h : copy w.model = .ok m) (act : Action α β) : (onCopy copy act).leaves w =
      { w with attempts := (act.leaves ⟨m, none, false, w.attempts⟩).attempts } := by
  unfold leaves onCopy
  rw [h]
  dsimp only
  cases act ⟨m, none, false, w.attempts⟩ with
  | ok b v => rfl
  | error f v => rfl

/-- Nothing happens if there is no copy. -/
theorem leaves_onCopy_error {copy : Model α → Except Fault (Model α)} {f : Fault} {w : Workspace α}
    (h : copy w.model = .error f) (act : Action α β) : (onCopy copy act).leaves w = w := by
  unfold leaves onCopy
  rw [h]

/-- A composition stops with the fault of its first action, or goes on from what that one leaves. -/
theorem bind_respects {R S T : Workspace α → Workspace α → Prop} {act : Action α β}
    {next : β → Action α γ} (h : act.Respects R) (hnext : ∀ b, (next b).Respects S)
    (hstop : ∀ w v, R w v → T w v) (hgo : ∀ w v u, R w v → S v u → T w u) :
    (act >>= next).Respects T := by
  intro w
  have hw := h w
  unfold leaves at hw ⊢
  cases hact : act w with
  | ok b v =>
    rw [hact] at hw
    rw [bind_of_eq_ok hact]
    exact hgo w v _ hw (hnext b v)
  | error f v =>
    rw [hact] at hw
    rw [bind_of_eq_error hact]
    exact hstop w v hw

end Action

/-- A relation that holds if nothing is done, and if one thing is done after another. -/
structure Workspace.Frame {α : Type} (R : Workspace α → Workspace α → Prop) : Prop where
  refl : ∀ w, R w w
  trans : ∀ w v u, R w v → R v u → R w u

namespace Workspace.Frame

variable {α β γ : Type} {R : Workspace α → Workspace α → Prop}

theorem pure (hR : Frame R) (b : β) : (Pure.pure b : Action α β).Respects R := fun w => hR.refl w

theorem throw (hR : Frame R) (f : Fault) : (MonadExcept.throw f : Action α β).Respects R :=
  fun w => hR.refl w

theorem model (hR : Frame R) : (Action.model : Action α (Model α)).Respects R := fun w => hR.refl w

theorem ofExcept (hR : Frame R) (e : Except Fault β) : (Action.ofExcept e : Action α β).Respects R := by
  intro w
  cases e with
  | ok b => exact hR.refl w
  | error f => exact hR.refl w

theorem bind (hR : Frame R) {act : Action α β} {next : β → Action α γ} (h : act.Respects R)
    (hnext : ∀ b, (next b).Respects R) : (act >>= next).Respects R :=
  Action.bind_respects h hnext (fun _ _ hw => hw) hR.trans

/-- An action on neurons one after the other, up to the first that fails or is none. -/
theorem eachNeuron (hR : Frame R) {act : Neuron α → Action α β} (step : ∀ n, (act n).Respects R)
    (ns : List (Except Fault (Neuron α))) : (eachNeuron act ns).Respects R := by
  induction ns with
  | nil => exact hR.pure []
  | cons e ns ih =>
    cases e with
    | error f => exact hR.throw f
    | ok n => exact hR.bind (step n) fun b => hR.bind ih fun bs => hR.pure (b :: bs)

end Workspace.Frame

/-! ### Problems of one neuron -/

section

variable {α : Type}

/-- The model is the one before, up to the objective, and no change begins to wait. -/
structure Workspace.Aimed (w v : Workspace α) : Prop where
  model : w.model.SameButObjective v.model
  waiting : w.waiting = false → v.waiting = false

theorem frame_aimed : Workspace.Frame (Workspace.Aimed (α := α)) where
  refl _ := ⟨rfl, id⟩
  trans _ _ _ h h' := ⟨h.model.trans h'.model, fun hw => h'.waiting (h.waiting hw)⟩

/-- The model is the one before, and no change begins to wait. -/
structure Workspace.Untouched (w v : Workspace α) : Prop where
  model : v.model = w.model
  waiting : w.waiting = false → v.waiting = false

theorem frame_untouched : Workspace.Frame (Workspace.Untouched (α := α)) where
  refl _ := ⟨rfl, id⟩
  trans _ _ _ h h' := ⟨h'.model.trans h.model, fun hw => h'.waiting (h.waiting hw)⟩

/-- A solve changes no model, also if the solver fails. -/
theorem solve_aims (solver : Solver α) : (Action.solve solver).Respects Workspace.Aimed := by
  intro w
  unfold Action.leaves Action.solve
  cases solver w.attempts w.model with
  | ok o => exact ⟨rfl, fun _ => rfl⟩
  | error f => exact ⟨rfl, id⟩

variable [Scalar α]

/-- An objective that is refused is not set. -/
theorem aim_aims (e : Linear α) (maximize : Bool) : (aim e maximize).Respects Workspace.Aimed := by
  intro w
  unfold Action.leaves aim Action.update
  dsimp only
  cases hset : w.model.setObjective e maximize with
  | ok m => exact ⟨setObjective_eq_ok hset, fun _ => rfl⟩
  | error f => exact ⟨rfl, id⟩

theorem optimalValue_aims (solver : Solver α) (e : Linear α) (maximize : Bool) :
    (optimalValue solver e maximize).Respects Workspace.Aimed := by
  refine frame_aimed.bind (aim_aims e maximize) fun _ => ?_
  refine frame_aimed.bind (solve_aims solver) fun r => ?_
  exact frame_aimed.bind frame_aimed.model fun m => frame_aimed.pure _

theorem neuronOptima_aims (solver : Solver α) (prev : List VarId) (n : Neuron α) :
    (neuronOptima solver prev n).Respects Workspace.Aimed := by
  refine frame_aimed.bind (frame_aimed.ofExcept _) fun e => ?_
  refine frame_aimed.bind (optimalValue_aims solver e true) fun upper => ?_
  exact frame_aimed.bind (optimalValue_aims solver e false) fun lower => frame_aimed.pure _

end

/-! ### Problems of a layer -/

section

variable {α β : Type}

theorem subproblem_untouched {act : Action α β} (h : act.Respects Workspace.Aimed) (relax : Bool) :
    (subproblem relax act).Respects Workspace.Untouched := by
  intro w
  have hact := (h (w.withModel (if relax then w.model.relaxed else w.model))).model
  unfold subproblem
  rw [Action.leaves_bracket]
  exact ⟨restored_eq hact, fun _ => rfl⟩

theorem onCopy_untouched (copy : Model α → Except Fault (Model α)) (act : Action α β) :
    (Action.onCopy copy act).Respects Workspace.Untouched := by
  intro w
  cases h : copy w.model with
  | error f =>
    rw [Action.leaves_onCopy_error h]
    exact ⟨rfl, id⟩
  | ok m =>
    rw [Action.leaves_onCopy h]
    exact ⟨rfl, id⟩

/-- The model is the one before, and no change waits. -/
structure Workspace.Settles (w v : Workspace α) : Prop where
  model : v.model = w.model
  waiting : v.waiting = false

theorem settles_settled (w : Workspace α) : w.Settles w.settled := by
  refine ⟨w.settled_model, ?_⟩
  unfold Workspace.settled
  split
  · rfl
  · rename_i h
    exact Bool.not_eq_true _ ▸ h

/-- What follows a settling action and touches nothing. -/
theorem settle_bind_settles {next : Unit → Action α β}
    (h : ∀ u, (next u).Respects Workspace.Untouched) :
    ((Action.settle : Action α Unit) >>= next).Respects Workspace.Settles :=
  Action.bind_respects settles_settled h (fun _ _ hw => hw)
    fun _ _ _ hw hv => ⟨hv.model.trans hw.model, hv.waiting hw.waiting⟩

theorem bind_settles {γ : Type} {act : Action α β} {next : β → Action α γ}
    (h : act.Respects Workspace.Settles) (hnext : ∀ b, (next b).Respects Workspace.Untouched) :
    (act >>= next).Respects Workspace.Settles :=
  Action.bind_respects h hnext (fun _ _ hw => hw)
    fun _ _ _ hw hv => ⟨hv.model.trans hw.model, hv.waiting hw.waiting⟩

theorem Workspace.Settles.untouched {w v : Workspace α} (h : w.Settles v) : w.Untouched v :=
  ⟨h.model, fun _ => h.waiting⟩

variable [Scalar α]

/-- In place the kinds of all variables and the objective change for the whole layer, and come back once;
on copies nothing that the layer shares changes. -/
theorem layerOptima_settles (solver : Solver α) (s : Settings) (jobs : Jobs) (prev : List VarId)
    (ns : List (Except Fault (Neuron α))) :
    (layerOptima solver s jobs prev ns).Respects Workspace.Settles := by
  refine settle_bind_settles fun _ => ?_
  cases jobs with
  | none f => exact frame_untouched.throw f
  | inPlace =>
    exact subproblem_untouched (frame_aimed.eachNeuron (neuronOptima_aims solver prev) ns) s.relax
  | onCopies =>
    refine frame_untouched.bind frame_untouched.model fun m => ?_
    refine frame_untouched.bind (frame_untouched.ofExcept _) fun positions => ?_
    exact frame_untouched.eachNeuron (fun n => onCopy_untouched _ _) ns

theorem tightenLayer_settles (solver : Solver α) (s : Settings) (jobs : Jobs) (prev : List VarId)
    (l : Layer α) (known : List (Interval α)) :
    (tightenLayer solver s jobs prev l known).Respects Workspace.Settles :=
  bind_settles (layerOptima_settles solver s jobs prev _) fun _ => frame_untouched.pure _

end

/-- Arrays may hold neurons that are none, and may not fit the bounds that are known. -/
theorem tightenArrays_settles (solver : Solver Float) (s : Settings) (jobs : Jobs) (prev : List VarId)
    (weights bias upper lower : Tensor Float) :
    (tightenArrays solver s jobs prev weights bias upper lower).Respects Workspace.Settles := by
  refine settle_bind_settles fun _ => ?_
  refine frame_untouched.bind (frame_untouched.ofExcept _) fun ns => ?_
  refine frame_untouched.bind (fun w => ?_) fun os => frame_untouched.ofExcept _
  exact (layerOptima_settles solver s jobs prev ns w).untouched

/-- However the tightening of a layer ends, in place or on copies, relaxed or not, with bounds after solves of
any status or with a fault at any neuron, the model is the one that was there before, its variables with
their bounds and kinds, its rows and its objective, and all changes that waited are made. So it is with
layers that are given as arrays, whose items need not be neurons. -/
theorem tightening_untraced {α : Type} [Scalar α] (s : Settings) (jobs : Jobs) (prev : List VarId) :
    (∀ (solver : Solver α) (l : Layer α) (known : List (Interval α)) (w : Workspace α),
      ((tightenLayer solver s jobs prev l known).leaves w).model = w.model ∧
        ((tightenLayer solver s jobs prev l known).leaves w).waiting = false) ∧
    ∀ (solver : Solver Float) (weights bias upper lower : Tensor Float) (w : Workspace Float),
      ((tightenArrays solver s jobs prev weights bias upper lower).leaves w).model = w.model ∧
        ((tightenArrays solver s jobs prev weights bias upper lower).leaves w).waiting = false := by
  constructor
  · intro solver l known w
    have h := tightenLayer_settles solver s jobs prev l known w
    exact ⟨h.model, h.waiting⟩
  · intro solver weights bias upper lower w
    have h := tightenArrays_settles solver s jobs prev weights bias upper lower w
    exact ⟨h.model, h.waiting⟩

end ReluMilp
