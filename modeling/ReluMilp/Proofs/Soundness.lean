import ReluMilp.Formulation.Evaluation
import ReluMilp.Proofs.Retightening

/-!
# Every solution evaluates the network

The rows of a formulation admit nothing but evaluations of its network, whatever bounds they were made of.

* `Replacements` — successful replacements one after the other;
* `Formulation.Stands` — a formulation stands in a well-formed model, with any table; one replacement keeps
  that (`Stands.replace`), and so does any number of them (`Stands.run`);
* `error_eq_zero` — an evaluation has no error;
* `solutions_evaluate` — every assignment that satisfies the variables and rows of a formulation evaluates
  the network.
-/

namespace ReluMilp

open Scalar

/-- Formulations and workspaces that replacements without refusal lead to. -/
inductive Replacements {α : Type} [Scalar α] (f : Formulation α) (w : Workspace α) :
    Formulation α → Workspace α → Prop
  | refl : Replacements f w f w
  | step {g g' : Formulation α} {v v' : Workspace α} {layer neuron : Value} {upper lower : BoundArgument α} :
      Replacements f w g v → g.replaceBigM layer neuron upper lower v = .ok ⟨g', none⟩ v' →
      Replacements f w g' v'

/-- A formulation stands in a well-formed model, its rows made for any table. -/
structure Formulation.Stands {α : Type} [Scalar α] (f : Formulation α) (m : Model α) : Prop where
  wellFormed : m.WellFormed
  body : ∃ b table, f.body? = some b ∧ b.Stands m f.network table

namespace Formulation.Stands

variable {α : Type} [Scalar α] {f g : Formulation α}

theorem replace {w w' : Workspace α} {layer neuron : Value} {upper lower : BoundArgument α}
    (hf : f.Stands w.model) (h : f.replaceBigM layer neuron upper lower w = .ok ⟨g, none⟩ w') :
    g.Stands w'.model ∧ g.network = f.network := by
  obtain ⟨hn, b, k, us, i, u, t, t', j, hb, hk, hi, hg, hw'⟩ := replaceBigM_eq_ok h
  obtain ⟨b', table, hb', hs⟩ := hf.body
  rw [hb] at hb'
  cases hb'
  obtain ⟨hs', hm'⟩ := hs.swap hf.wellFormed hk hi t t' j
  rw [← hw', ← hn] at hs'
  rw [← hw'] at hm'
  exact ⟨⟨hm', _, _, hg, hs'⟩, hn⟩

theorem run {w w' : Workspace α} (hf : f.Stands w.model) (h : Replacements f w g w') :
    g.Stands w'.model ∧ g.network = f.network := by
  induction h with
  | refl => exact ⟨hf, rfl⟩
  | step _ hstep ih =>
    obtain ⟨hs, hn⟩ := ih
    obtain ⟨hs', hn'⟩ := hs.replace hstep
    exact ⟨hs', hn'.trans hn⟩

end Formulation.Stands

/-- A network that is formulated stands in the model. -/
theorem formulateNetwork_stands {solver : Solver Rat} {settings : Option Settings}
    {a : BuildArguments Rat} {f : Formulation Rat} {w w' : Workspace Rat} (hm : w.model.WellFormed)
    (ha : a.Faithful) (h : formulateNetwork solver settings a w = .ok f w') :
    f.Stands w'.model ∧ a.network = .ok f.network := by
  obtain ⟨r, w₀, hreq, hw₀, h⟩ := formulateNetwork_eq_ok h
  have hasks := request_eq_ok hreq
  have hm₀ : w₀.model.WellFormed := by
    rw [hw₀]
    exact Model.wellFormed_parameters hm _
  obtain ⟨hn, hm', b, table, hb, hs⟩ := r.build_stands (hasks.wellFormed ha) hm₀ h
  rw [hn]
  refine ⟨⟨hm', b, table, hb, ?_⟩, hasks.network⟩
  rw [hn]
  exact hs

/-- The distance of a vector from itself. -/
theorem zipWith_magnitude_self (v : List Rat) :
    List.zipWith (fun a b => magnitude (a - b)) v v = List.replicate v.length 0 := by
  induction v with
  | nil => rfl
  | cons a v ih =>
    rw [List.zipWith_cons_cons, ih, sub_self, magnitude_eq_abs, abs_zero, List.length_cons,
      List.replicate_succ]

/-- An evaluation has no error. -/
theorem error_eq_zero {f : Formulation Rat} {b : Body} {x : Assignment Rat} {v : Workspace Rat}
    (hb : f.body? = some b) (hx : b.Evaluates f.network x) (hv : v.solution = some x) :
    f.error v = .ok (List.replicate f.network.outputs 0) := by
  have hat : ∀ part, f.valuesAt part v = .ok ((part b).map x) := by
    intro part
    unfold Formulation.valuesAt
    rw [hb, hv]
  have hlen : (b.outputs.map x).length = f.network.outputs := by
    rw [hx.outputs, Layer.length_preactivations]
    rfl
  unfold Formulation.error Formulation.inputValues Formulation.outputValues
  rw [hat, hat]
  show Except.ok (List.zipWith _ (f.network.eval (b.inputs.map x)) (b.outputs.map x)) = _
  rw [← hx.outputs_eq, zipWith_magnitude_self, hlen]

/-- Whatever the mode, the bounds and the replacements after the build, an assignment that satisfies the
variables and rows of a formulation evaluates the network on its own input: every hidden neuron
takes the values of the rectifier, the outputs are those of a forward pass, and the error is zero. -/
theorem solutions_evaluate {solver : Solver Rat} {settings : Option Settings} {a : BuildArguments Rat}
    {f g : Formulation Rat} {w w₁ w₂ : Workspace Rat} {x : Assignment Rat} (hm : w.model.WellFormed)
    (ha : a.Faithful) (hbuild : formulateNetwork solver settings a w = .ok f w₁)
    (hrun : Replacements f w₁ g w₂) (hx : w₂.model.SatisfiedOn g.vars g.rows x) :
    ∃ n b, a.network = .ok n ∧ g.network = n ∧ g.body? = some b ∧
      Along (HiddenUnit.Rectifies x) b.inputs n.hidden b.hidden ∧
      n.forward (Tensor.ofVector (b.inputs.map x)) = .ok (Tensor.ofVector (b.outputs.map x)) ∧
      ∀ v : Workspace Rat, v.solution = some x → g.error v = .ok (List.replicate n.outputs 0) := by
  obtain ⟨hf, hn⟩ := formulateNetwork_stands hm ha hbuild
  obtain ⟨hg, hgn⟩ := hf.run hrun
  obtain ⟨b, table, hb, hs⟩ := hg.body
  have hvars : g.vars = b.vars := by
    unfold Formulation.vars
    rw [hb]
    rfl
  have hrows : g.rows = b.rows := by
    unfold Formulation.rows
    rw [hb]
    rfl
  rw [hvars, hrows] at hx
  have heval := hs.evaluates hg.wellFormed hx
  rw [← hgn] at hn
  exact ⟨g.network, b, hn, rfl, hb, heval.hidden, heval.forward_eq hs.inputs_length,
    fun v hv => error_eq_zero hb heval hv⟩

instance (m : Model Rat) (vars : List VarId) (rows : List RowId) (x : Assignment Rat) :
    Decidable (m.SatisfiedOn vars rows x) :=
  inferInstanceAs (Decidable (_ ∧ _))

/-- Bounds of the layers of the absolute value in which every lower bound is above the upper one. -/
def BuildArguments.crossed : BuildArguments Rat :=
  { BuildArguments.absolute "fast" with
    boundsUpper := .layers [⟨.ok 2, .ok (.ofVector [-1, -1])⟩, ⟨.ok 1, .ok (.ofVector [-1])⟩]
    boundsLower := .layers [⟨.ok 2, .ok (.ofVector [1, 1])⟩, ⟨.ok 1, .ok (.ofVector [1])⟩] }

theorem BuildArguments.faithful_crossed : crossed.Faithful := by
  have hside : ∀ c : Rat, (TableArgument.layers [⟨.ok 2, .ok (.ofVector [c, c])⟩,
      ⟨.ok 1, .ok (.ofVector [c])⟩]).Faithful := by
    intro c a ha t n ht hn
    rcases List.mem_pair.1 ha with rfl | rfl
    · cases ht
      cases hn
      rfl
    · cases ht
      cases hn
      rfl
  exact ⟨hside (-1), hside 1⟩

/-- Crossed bounds, and then wrong ones for one neuron. -/
theorem solutions_evaluate_crossed :
    ∃ (f g : Formulation Rat) (w₁ w₂ : Workspace Rat) (b : Body),
      formulateNetwork .ideal none .crossed (.ofModel (.empty "model")) = .ok f w₁ ∧
      Replacements f w₁ g w₂ ∧ w₂.model.SatisfiedOn g.vars g.rows (fun _ => 0) ∧
      Along (HiddenUnit.Rectifies fun _ => 0) b.inputs Network.absolute.hidden b.hidden ∧
      Network.absolute.forward (Tensor.ofVector (b.inputs.map fun _ => 0)) =
        .ok (Tensor.ofVector (b.outputs.map fun _ => 0)) := by
  have hrun : (match formulateNetwork .ideal none .crossed (.ofModel (.empty "model")) with
      | .ok f w₁ =>
        match f.replaceBigM (.int 1) (.int 0) ⟨.ok 0, .ok (.ofVector [0]), .ok 0⟩
          ⟨.ok 2, .ok (.ofVector [2]), .ok 2⟩ w₁ with
        | .ok ⟨g, none⟩ w₂ => decide (w₂.model.SatisfiedOn g.vars g.rows fun _ => 0)
        | _ => false
      | _ => false) = true := by decide +kernel
  split at hrun
  · rename_i f w₁ hbuild
    split at hrun
    · rename_i g w₂ hstep
      have hx := of_decide_eq_true hrun
      have hr : Replacements f w₁ g w₂ := .step .refl hstep
      obtain ⟨n, b, hn, -, -, hhidden, hforward, -⟩ :=
        solutions_evaluate (Model.wellFormed_empty "model") BuildArguments.faithful_crossed hbuild hr hx
      cases hn
      exact ⟨f, g, w₁, w₂, b, hbuild, hr, hx, hhidden, hforward⟩
    · cases hrun
  · cases hrun

end ReluMilp
