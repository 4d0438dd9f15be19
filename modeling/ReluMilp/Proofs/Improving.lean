import ReluMilp.Proofs.Attainment
import ReluMilp.Proofs.Succeeding

/-!
# Tightened bounds hold

What tightening gives on any model, whatever the solves end with, as long as what counts as an optimum bounds
the objective.

* `Interval.Tightened` — known bounds of a neuron, and the better ones after the two solves for it;
* `Optima.ReachedAt.tightened` — one neuron; `tightening_sound` — every neuron of a layer, in place and on
  copies;
* `tightening_cuts_semicontinuous` — a relaxed problem does without the zero of a semi-continuous variable, and
  the bounds then exclude a feasible assignment.
-/

namespace ReluMilp

/-! ### One neuron -/

/-- Known bounds of a neuron and tightened ones, after attempts `k` and `k + 1` of a solver at the largest
and the smallest affine value on a problem. -/
structure Interval.Tightened (solver : Solver Rat) (problem : Model Rat) (prev : List VarId) (k : Nat)
    (n : Neuron Rat) (i j : Interval Rat) : Prop where
  within : j.upper ≤ i.upper ∧ i.lower ≤ j.lower
  upper : ∃ o, solver.Ends k problem ⟨weightTerms n.weights prev, n.bias⟩ true o ∧
    (o.status = .optimal → j.upper = min i.upper (if problem.isMixed then o.bound else o.value)) ∧
    (o.status ≠ .optimal → j.upper = i.upper)
  lower : ∃ o, solver.Ends (k + 1) problem ⟨weightTerms n.weights prev, n.bias⟩ false o ∧
    (o.status = .optimal → j.lower = max i.lower (if problem.isMixed then o.bound else o.value)) ∧
    (o.status ≠ .optimal → j.lower = i.lower)

theorem Optima.ReachedAt.tightened {solver : Solver Rat} {problem : Model Rat} {prev : List VarId}
    {k : Nat} {n : Neuron Rat} {o : Optima Rat} (h : o.ReachedAt solver problem prev k n)
    (i : Interval Rat) : i.Tightened solver problem prev k n (i.improve o.upper o.lower) := by
  obtain ⟨a, ha, hupper⟩ := h.upper
  obtain ⟨b, hb, hlower⟩ := h.lower
  refine ⟨improve_within i _ _, ⟨a, ha, fun hopt => ?_, fun hnot => ?_⟩, b, hb, fun hopt => ?_, fun hnot => ?_⟩
  · simp [improve_eq, ← hupper, optimum?_of_optimal hopt]
  · simp [improve_eq, ← hupper, optimum?_of_ne_optimal hnot]
  · simp [improve_eq, ← hlower, optimum?_of_optimal hopt]
  · simp [improve_eq, ← hlower, optimum?_of_ne_optimal hnot]

/-! ### A layer -/

theorem getElem?_improveAll {known : List (Interval Rat)} {os : List (Optima Rat)} {j : Nat}
    {i i' : Interval Rat} (hi : known[j]? = some i) (hi' : (improveAll known os)[j]? = some i') :
    ∃ o, os[j]? = some o ∧ i' = i.improve o.upper o.lower := by
  rw [improveAll, List.getElem?_zipWith, hi] at hi'
  cases ho : os[j]? with
  | none =>
    rw [ho] at hi'
    cases hi'
  | some o =>
    rw [ho] at hi'
    exact ⟨o, rfl, (Option.some.inj hi').symm⟩

/-- A layer over any variables of any model is tightened, whatever statuses the solves end with. No bound of a
neuron becomes worse, a side whose solve is not optimal stays, and an affine value that a feasible assignment
of the model gives and that lies in the known bounds lies in the new ones. The model may be relaxed, and the
problems may be solved on it or on copies. The relaxation keeps the bounds of every variable, also where a
semi-continuous or semi-integer one may be zero outside them; only assignments without such a zero are sure
to stay in the bounds that it gives. -/
theorem tightening_sound {solver : Solver Rat} {s : Settings} {jobs : Jobs} {prev : List VarId}
    {l : Layer Rat} {known : List (Interval Rat)} {w : Workspace Rat} (hs : solver.Total)
    (hsound : solver.Sound) (hset : jobs = .onCopies → s.Accepted) (hjobs : ∀ f, jobs ≠ .none f)
    (hprev : w.model.HasVars prev) (hlen : l.inputs = prev.length) (hknown : known.length = l.outputs) :
    ∃ is v, tightenLayer solver s jobs prev l known w = .ok is v ∧ is.length = l.outputs ∧
      ∀ (j : Nat) n i i', l.neurons[j]? = some n → known[j]? = some i → is[j]? = some i' →
        i.Tightened solver (w.model.subject s.relax (jobs.parameters s w.model.parameters)) prev
          (w.attempts + 2 * j) n i' ∧
        ∀ x, w.model.Feasible x → (s.relax = true → ∀ v ∈ w.model.vars, v.Gapped → x v.id ≠ 0) →
          i.Has (n.preactivation (prev.map x)) → i'.Has (n.preactivation (prev.map x)) := by
  obtain ⟨is, v, hrun⟩ := tightenLayer_succeeds (w := w) hs hset hjobs hprev hlen known
  obtain ⟨os, v₁, hos, hpure⟩ := Action.bind_eq_ok.1 hrun
  obtain ⟨rfl, rfl⟩ := Action.pure_eq_ok.1 hpure
  obtain ⟨-, -, hcount, hreached⟩ := layerOptima_reachedAt hos
  refine ⟨_, _, hrun, ?_, fun j n i i' hn hi hi' => ?_⟩
  · rw [improveAll, List.length_zipWith, hknown, hcount]
    exact Nat.min_self _
  · obtain ⟨o, ho, rfl⟩ := getElem?_improveAll hi hi'
    have hat := hreached j n o hn ho
    have hfrom : o.From solver s.relax w.model prev n := ⟨_, loosens_subject _ _ _, hat.reached⟩
    exact ⟨hat.tightened i, fun x hx hgap hhas => improve_has (hfrom.bounds hsound (hx.loosened hgap)) hhas⟩

/-- A model of one binary variable. -/
def Workspace.coin : Workspace Rat :=
  .ofModel { Model.empty "coin" with vars := [⟨0, "c", .binary, .finite 0, .finite 1⟩], nextVar := 1 }

/-- A layer of one neuron, which is one or minus one on a binary variable. -/
def Layer.sign : Layer Rat := ⟨1, [⟨[2], -1⟩], .identity, by simp⟩

/-- A solver that minimises nothing keeps the lower bound, and what it maximises holds where the variable is
one. -/
theorem tightening_sound_coin :
    ∃ u v, tightenLayer (Solver.ideal.unless fun k _ => k % 2 = 1) .default .onCopies [0] .sign
        [⟨5, -5⟩] .coin = .ok [⟨u, -5⟩] v ∧ 1 ≤ u ∧ u ≤ 5 := by
  have hstop : ∀ k, k % 2 = 1 → ∀ m, (Solver.ideal.unless fun k _ => k % 2 = 1) k m =
      .ok ⟨.timeLimit, 0, 0, none⟩ := fun k hk m => if_pos (decide_eq_true hk)
  have hprev : Workspace.coin.model.HasVars [0] := by
    intro id hid
    exact ⟨⟨0, "c", .binary, .finite 0, .finite 1⟩, by decide, (List.mem_singleton.1 hid).symm⟩
  obtain ⟨is, v, hrun, hlen, his⟩ := @tightening_sound (Solver.ideal.unless fun k _ => k % 2 = 1) .default
    .onCopies [0] .sign [⟨5, -5⟩] .coin exact_ideal.total.unless exact_ideal.sound.unless
    (fun _ => by decide) nofun hprev rfl rfl
  obtain ⟨i, rfl⟩ := List.length_eq_one_iff.1 hlen
  obtain ⟨htight, hhas⟩ := his 0 ⟨[2], -1⟩ ⟨5, -5⟩ i rfl rfl rfl
  obtain ⟨b, ⟨m, -, hb⟩, -, hkept⟩ := htight.lower
  have hlower : i.lower = -5 := by
    rw [hstop _ rfl] at hb
    cases hb
    exact hkept nofun
  have hone : Neuron.preactivation ⟨[2], -1⟩ ([0].map fun _ : VarId => (1 : Rat)) = 1 := by decide +kernel
  have hheads := hhas (fun _ => 1) (by decide +kernel) nofun
  rw [hone] at hheads
  have hwithin : i.Has 1 := hheads ⟨by decide +kernel, by decide +kernel⟩
  obtain ⟨upper, lower⟩ := i
  cases hlower
  exact ⟨upper, v, hrun, hwithin.2, htight.within.1⟩

/-! ### Zeros outside the bounds -/

/-- A model of one variable, which is zero or lies between one and two. -/
def Workspace.semicontinuous : Workspace Rat :=
  .ofModel { Model.empty "machine" with
    vars := [⟨0, "v", .semicontinuous, .finite 1, .finite 2⟩], nextVar := 1 }

/-- A layer of one neuron, which passes a variable on. -/
def Layer.wire : Layer Rat := ⟨1, [⟨[1], 0⟩], .identity, by simp⟩

theorem hasVars_semicontinuous : Workspace.semicontinuous.model.HasVars [0] := by
  intro id hid
  exact ⟨⟨0, "v", .semicontinuous, .finite 1, .finite 2⟩, by decide, (List.mem_singleton.1 hid).symm⟩

theorem wellFormed_semicontinuous : Workspace.semicontinuous.model.WellFormed := by
  refine ⟨?_, nofun, by decide, by decide, nofun⟩
  intro u hu
  rw [List.mem_singleton.1 hu]
  decide

/-- The relaxed problem has the variable between one and two. -/
theorem feasible_semicontinuous_loosened (x : Assignment Rat) :
    (Workspace.semicontinuous.model.loosened true).Feasible x ↔ 1 ≤ x 0 ∧ x 0 ≤ 2 := by
  show (∀ v ∈ [(⟨0, "v", .continuous, .finite 1, .finite 2⟩ : Variable Rat)], v.Admits (x v.id)) ∧ _ ↔ _
  rw [List.forall_mem_singleton, Variable.admits_iff rfl]
  exact ⟨fun h => ⟨h.1.1, h.1.2.1⟩, fun h => ⟨⟨h.1, h.2, trivial⟩, fun _ hr => absurd hr List.not_mem_nil⟩⟩

theorem preactivation_wire (a : Rat) : Neuron.preactivation ⟨[1], 0⟩ [a] = a := by
  show 1 * a + 0 + 0 = a
  ring

theorem values_semicontinuous_loosened : Neuron.preactivation ⟨[1], 0⟩ ''
    (Workspace.semicontinuous.model.loosened true).readings [0] = Set.Icc 1 2 := by
  ext a
  constructor
  · rintro ⟨_, ⟨x, hx, rfl⟩, rfl⟩
    show Neuron.preactivation ⟨[1], 0⟩ [x 0] ∈ _
    rw [preactivation_wire]
    exact (feasible_semicontinuous_loosened x).1 hx
  · intro ha
    exact ⟨[a], ⟨fun _ => a, (feasible_semicontinuous_loosened fun _ => a).2 ha, rfl⟩, preactivation_wire a⟩

/-- An exact solver finds just these two bounds. -/
theorem tightenLayer_semicontinuous : ∃ v, tightenLayer .ideal { Settings.default with relax := true }
    .inPlace [0] .wire [⟨2, 0⟩] .semicontinuous = .ok [⟨2, 1⟩] v := by
  have hjobs : ∀ f, Jobs.inPlace ≠ .none f := nofun
  obtain ⟨is, v, hrun⟩ := tightenLayer_succeeds (s := { Settings.default with relax := true }) (l := .wire)
    exact_ideal.total (fun h => absurd h (by decide)) hjobs hasVars_semicontinuous rfl [⟨2, 0⟩]
  obtain ⟨-, os, rfl, hos⟩ := tightenLayer_eq_ok hrun
  have hplain : (Workspace.semicontinuous.model.loosened true).Plain := by
    intro u hu
    rw [List.mem_singleton.1 hu]
    exact .inl rfl
  have hknown : ∀ u ∈ (Workspace.semicontinuous.model.loosened true).readings [0],
      (⟨2, 0⟩ : Interval Rat).Has (Neuron.preactivation ⟨[1], 0⟩ u) := by
    intro u hu
    obtain ⟨hle, hge⟩ := Set.ext_iff.1 values_semicontinuous_loosened _ |>.1 (Set.mem_image_of_mem _ hu)
    exact ⟨zero_le_one.trans hle, hge⟩
  have hone := (feasible_semicontinuous_loosened fun _ => 1).2 ⟨le_rfl, one_le_two⟩
  have hspans := (improveAll_exact exact_ideal (wellFormed_semicontinuous.loosened true) hplain (by decide)
    (.cons hknown .nil) (hos.imp fun n o ho => ho.loosened)).1 ⟨[1], fun _ => 1, hone, rfl⟩
  obtain ⟨i, is, hspan, hrest, heq⟩ := List.forall₂_cons_left_iff.1 hspans
  cases hrest
  rw [values_semicontinuous_loosened] at hspan
  have hi : i = ⟨2, 1⟩ := congrArg₂ Interval.mk (hspan.upper.unique (isGreatest_Icc one_le_two))
    (hspan.lower.unique (isLeast_Icc one_le_two))
  rw [heq, hi] at hrun
  exact ⟨v, hrun⟩

/-- The zero of the variable is feasible and within the known bounds, and it falls out of the tightened
ones. -/
theorem tightening_cuts_semicontinuous :
    ∃ i v, tightenLayer .ideal { Settings.default with relax := true } .inPlace [0] .wire [⟨2, 0⟩]
        .semicontinuous = .ok [i] v ∧ i = ⟨2, 1⟩ ∧
      Workspace.semicontinuous.model.Feasible (fun _ => 0) ∧
      (⟨2, 0⟩ : Interval Rat).Has (Neuron.preactivation ⟨[1], 0⟩ ([0].map fun _ : VarId => (0 : Rat))) ∧
      ¬i.Has (Neuron.preactivation ⟨[1], 0⟩ ([0].map fun _ : VarId => (0 : Rat))) := by
  obtain ⟨v, hrun⟩ := tightenLayer_semicontinuous
  refine ⟨⟨2, 1⟩, v, hrun, rfl, by decide +kernel, ⟨by decide +kernel, by decide +kernel⟩, fun hhas => ?_⟩
  exact absurd hhas.1 (by decide +kernel)

end ReluMilp
