import ReluMilp.Proofs.Attempts
import ReluMilp.Proofs.Boxes
import ReluMilp.Proofs.Exactness
import ReluMilp.Proofs.Revisions

/-!
# The bounds that are left

A network is bounded in three modes, each with a loop over the layers of its own. Where no attempt of the solver
ends with an optimum, all of them come to the intervals that go through the network.

* `HiddenUnit.Carries` — the two rows of a neuron with a binary variable are those of an interval;
  `Formulation.Kept.carries` — so are all of a formulation with its table;
* `OnBox.table`, `OnBox.carries` — what a build stores for a network on a box, and what its rows are made of;
* `bounds_fall_back` — the table and the rows in every mode.
-/

namespace ReluMilp

open Scalar

variable {α : Type} [Scalar α]

/-! ### Rows -/

/-- The two rows of a neuron with a binary variable have the positive parts of an upper bound and of a negated
lower bound as constants, and no other row of the model has their numbers. -/
structure HiddenUnit.Carries (m : Model α) (u : HiddenUnit) (i : Interval α) : Prop where
  upper : ∃ name, m.rows.filter (fun r => r.id = u.upperRow) = [RowDraft.toRow u.upperRow
    ⟨name, [⟨1, u.x⟩, ⟨positivePart i.upper, u.z⟩], .le, positivePart i.upper⟩]
  lower : ∃ name, m.rows.filter (fun r => r.id = u.lowerRow) = [RowDraft.toRow u.lowerRow
    ⟨name, [⟨1, u.s⟩, ⟨-positivePart (-i.lower), u.z⟩], .le, 0⟩]

omit [Scalar α] in
/-- In a well-formed model no other row has the number of a row. -/
theorem Model.WellFormed.filter_id {m : Model α} {r : Row α} (hm : m.WellFormed) (hr : r ∈ m.rows) :
    m.rows.filter (fun s => s.id = r.id) = [r] := by
  have hnodup : (m.rows.filter fun s => s.id = r.id).Nodup :=
    (List.Nodup.of_map _ hm.rows_nodup).sublist List.filter_sublist
  refine List.perm_singleton.1 ((List.perm_ext_iff_of_nodup hnodup (List.nodup_singleton r)).2 fun s => ?_)
  rw [List.mem_filter, decide_eq_true_iff, List.mem_singleton]
  constructor
  · exact fun hs => hm.eq_of_row_id hs.1 hr hs.2
  · rintro rfl
    exact ⟨hr, rfl⟩

theorem HiddenUnit.Stands.carries {m : Model α} {prev : List VarId} {n : Neuron α} {u : HiddenUnit}
    {i : Interval α} (h : u.Stands m prev n i) (hm : m.WellFormed) : u.Carries m i where
  upper := h.upper.imp fun _ hr => hm.filter_id hr
  lower := h.lower.imp fun _ hr => hm.filter_id hr

/-- The rows of a formulation are those of its table. -/
theorem Formulation.Kept.carries {f : Formulation α} {base m : Model α} {b : Body}
    {table : List (List (Interval α))} {last : List (Interval α)} (h : f.Kept base m b table last) :
    List.Forall₂ (List.Forall₂ (HiddenUnit.Carries m)) b.hidden table :=
  (h.placed.stands.hidden.imp fun _ _ _ _ _ hu => hu.carries h.wellFormed).forall₂ fun _ _ _ _ hu => hu

/-! ### Builds on a box -/

section OnBox

variable {a : BuildArguments α} {n : Network α} {us ls : List α} {mode : Mode} {solver : Solver α}
  {settings : Option Settings} {f : Formulation α} {w w' : Workspace α}

/-- Without an optimum, a network on a box has the intervals that go through it in its table. Bounds of the
output take the last place. -/
theorem BuildArguments.OnBox.table [Scalar.Idempotent α] (h : a.OnBox n us ls)
    (hmode : Mode.ofValue a.mode = .ok mode)
    (hs : mode ≠ .fast → solver.NeverOptimal w.attempts w'.attempts)
    (hbuild : formulateNetwork solver settings a w = .ok f w') :
    ∃ hidden last, n.intervals (Interval.ofLists us ls) = hidden ++ [last] ∧
      (mode ≠ .output → f.table = hidden ++ [last]) ∧
      (mode = .output → ∃ ous ols, Reads a.outputUpper n.outputs ous ∧ Reads a.outputLower n.outputs ols ∧
        f.table = hidden ++ [Interval.ofLists ous ols]) := by
  obtain ⟨r, w₀, hreq, hw₀, hrun⟩ := formulateNetwork_run hbuild
  have hasks := request_eq_ok hreq
  obtain ⟨hnetwork, hgiven, hbox⟩ := (h.withSettings _).of_asks hasks
  have hplan : r.plan.mode = mode := Except.ok.inj (hasks.mode.symm.trans hmode)
  have hnever : r.plan ≠ .fast → solver.NeverOptimal w₀.attempts w'.attempts := by
    intro hnot
    rw [congrArg Workspace.attempts hw₀]
    refine hs fun hfast => hnot (hasks.plan_fast ?_)
    rw [← hfast]
    exact hmode
  obtain ⟨hidden, last, hall, htable⟩ := Request.build_intervals hgiven hnever hrun
  rw [hnetwork, hbox] at hall
  refine ⟨hidden, last, hall, fun hnot => ?_, fun hout => ?_⟩
  · rw [htable]
    cases hp : r.plan with
    | fast => rfl
    | standard => rfl
    | output range =>
      rw [hp] at hplan
      exact absurd hplan.symm hnot
  · rw [hout] at hmode
    obtain ⟨range, hp⟩ := hasks.plan_output hmode
    obtain ⟨ous, ols, hous, hols, rfl⟩ := hasks.range range hp
    rw [hnetwork] at hous hols
    rw [hp] at htable
    exact ⟨ous, ols, hous, hols, htable⟩

/-- The rows of a network on a box are those of its table. -/
theorem BuildArguments.OnBox.carries (h : a.OnBox n us ls) (hm : w.model.WellFormed)
    (hbuild : formulateNetwork solver settings a w = .ok f w') :
    ∃ b table last, f.body? = some b ∧ f.table = table ++ [last] ∧
      List.Forall₂ (List.Forall₂ (HiddenUnit.Carries w'.model)) b.hidden table := by
  obtain ⟨-, b, table, last, hkept⟩ := formulateNetwork_keeps hm h.faithful hbuild
  exact ⟨b, table, last, hkept.body, hkept.stored, hkept.carries⟩

end OnBox

/-- All ways to bounds fall back to the same table, in doubles as well as in exact arithmetic. A network that is
formulated on a box without optimisation has the bounds of the network there. Where no attempt of the build
ends with an optimum, it has them with optimisation, too, whatever the jobs and the relaxation; with bounds on
the output, these take the place of the last layer. In all these cases the rows with a binary variable
carry the constants of the bounds. In exact arithmetic the network is formulated in every mode if the bounds
of the box do not cross, the settings and the jobs are taken and all names fit. -/
theorem bounds_fall_back :
    (∀ {α : Type} [Scalar α] [Scalar.Idempotent α] {a : BuildArguments α} {n : Network α} {us ls : List α}
      {mode : Mode} {solver : Solver α} {settings : Option Settings} {f : Formulation α} {w w' : Workspace α},
      a.OnBox n us ls → Mode.ofValue a.mode = .ok mode → w.model.WellFormed →
      (mode ≠ .fast → solver.NeverOptimal w.attempts w'.attempts) →
      formulateNetwork solver settings a w = .ok f w' →
      ∃ hidden last b,
        n.boundsOfArrays (.ok (.ofVector us)) (.ok (.ofVector ls)) = .ok (hidden ++ [last]) ∧
        (mode ≠ .output → f.table = hidden ++ [last]) ∧
        (mode = .output → ∃ ous ols, Reads a.outputUpper n.outputs ous ∧ Reads a.outputLower n.outputs ols ∧
          f.table = hidden ++ [Interval.ofLists ous ols]) ∧
        f.body? = some b ∧ List.Forall₂ (List.Forall₂ (HiddenUnit.Carries w'.model)) b.hidden hidden) ∧
    ∀ {a : BuildArguments Rat} {n : Network Rat} {us ls : List Rat} {mode : Mode} {solver : Solver Rat}
      {settings : Option Settings} {w : Workspace Rat},
      a.OnBox n us ls → List.Forall₂ (· ≤ ·) ls us → Mode.ofValue a.mode = .ok mode →
      (mode = .output → ∃ ous ols, Reads a.outputUpper n.outputs ous ∧ Reads a.outputLower n.outputs ols) →
      a.Ready settings → solver.Total → w.model.WellFormed →
      ∃ f w', formulateNetwork solver settings a w = .ok f w' := by
  constructor
  · intro α _ _ a n us ls mode solver settings f w w' ha hmode hm hs h
    obtain ⟨hidden, last, hall, hplain, hout⟩ := ha.table hmode hs h
    obtain ⟨b, table, last', hb, htable, hrows⟩ := ha.carries hm h
    have hu : us.length = n.inputs := ha.upper.length_eq
    have hl : ls.length = n.inputs := ha.lower.length_eq
    have heq : table = hidden := by
      by_cases hmode' : mode = .output
      · obtain ⟨ous, ols, -, -, hstored⟩ := hout hmode'
        exact (List.append_inj' (htable.symm.trans hstored) rfl).1
      · exact (List.append_inj' (htable.symm.trans (hplain hmode')) rfl).1
    rw [heq] at hrows
    refine ⟨hidden, last, b, ?_, hplain, hout, hb, hrows⟩
    rw [boundsOfArrays_ofVector n hu hl, hall]
  · intro a n us ls mode solver settings w ha hle hmode hrange hready htotal hm
    exact ha.formulated hle hmode hrange hready htotal hm

/-- A solver that always stops at its time limit. -/
def Solver.late {α : Type} [Scalar α] : Solver α := fun _ _ => .ok ⟨.timeLimit, 0, 0, none⟩

theorem Solver.neverOptimal_late {α : Type} [Scalar α] (k k' : Nat) : (late : Solver α).NeverOptimal k k' := by
  intro i m o _ _ h
  cases h
  exact nofun

/-- The absolute value of doubles from minus one to one, and of exact numbers, with a solver that stops at
its time limit. -/
theorem bounds_fall_back_absolute :
    (∀ mode ∈ ["fast", "standard"], ∃ f w', formulateNetwork .late none
      { BuildArguments.magnitude with mode := .text mode } (.ofModel (.empty "model")) = .ok f w' ∧
      Network.magnitude.boundsOfArrays (.ok (.ofVector [1])) (.ok (.ofVector [-1])) = .ok f.table ∧
      ∃ b hidden last, f.body? = some b ∧ f.table = hidden ++ [last] ∧
        List.Forall₂ (List.Forall₂ (HiddenUnit.Carries w'.model)) b.hidden hidden) ∧
    ∃ f w', formulateNetwork .late none (.absolute "output") (.ofModel (.empty "model")) = .ok f w' ∧
      f.table = [[⟨1, -1⟩, ⟨1, -1⟩], [⟨3, 2⟩]] := by
  obtain ⟨htables, hbuilds⟩ := bounds_fall_back
  constructor
  · intro mode hmode
    have hrun : (formulateNetwork .late none { BuildArguments.magnitude with mode := .text mode }).succeeds
        (.ofModel (.empty "model")) = true := by
      rcases List.mem_pair.1 hmode with rfl | rfl
      · decide +kernel
      · decide +kernel
    obtain ⟨f, w', h⟩ := Action.exists_of_succeeds hrun
    have hon : ({ BuildArguments.magnitude with mode := .text mode } : BuildArguments Float).OnBox .magnitude
        [1] [-1] := ⟨rfl, ⟨_, rfl, rfl, rfl⟩, ⟨_, rfl, rfl, rfl⟩, rfl, rfl⟩
    obtain ⟨m, hm, hne⟩ : ∃ m, Mode.ofValue (.text mode) = .ok m ∧ m ≠ .output := by
      rcases List.mem_pair.1 hmode with rfl | rfl
      · exact ⟨.fast, by decide +kernel, nofun⟩
      · exact ⟨.standard, by decide +kernel, nofun⟩
    obtain ⟨hidden, last, b, hbounds, hplain, -, hb, hrows⟩ := htables hon hm (Model.wellFormed_empty "model")
      (fun _ => Solver.neverOptimal_late _ _) h
    have htable := hplain hne
    rw [← htable] at hbounds
    exact ⟨f, w', h, hbounds, b, hidden, last, hb, htable, hrows⟩
  · have hon : (BuildArguments.absolute "output").OnBox .absolute [1] [-1] :=
      ⟨rfl, ⟨_, rfl, rfl, rfl⟩, ⟨_, rfl, rfl, rfl⟩, rfl, rfl⟩
    have hmode : Mode.ofValue (BuildArguments.absolute "output").mode = .ok .output := by decide +kernel
    have hready : (BuildArguments.absolute "output").Ready none := by
      refine ⟨by decide, nofun, fun r hr => ?_⟩
      have hreq : (BuildArguments.absolute "output").request =
        .ok { Request.absolute with plan := .output [⟨3, 2⟩] } := rfl
      cases hreq.symm.trans hr
      exact namesFit_absolute.congr rfl rfl
    have hempty : (Workspace.ofModel (.empty "model") : Workspace Rat).model.WellFormed :=
      Model.wellFormed_empty "model"
    have htotal : (Solver.late : Solver Rat).Total := fun _ _ => ⟨_, rfl⟩
    obtain ⟨f, w', h⟩ := hbuilds hon (.cons (by norm_num) .nil) hmode
      (fun _ => ⟨[3], [2], ⟨_, rfl, rfl, rfl⟩, ⟨_, rfl, rfl, rfl⟩⟩) hready htotal hempty
    obtain ⟨hidden, last, b, hbounds, -, hout, -⟩ := htables hon hmode hempty
      (fun _ => Solver.neverOptimal_late _ _) h
    obtain ⟨ous, ols, ⟨_, hous, rfl, -⟩, ⟨_, hols, rfl, -⟩, htable⟩ := hout rfl
    cases hous
    cases hols
    have hfound : Network.absolute.boundsOfArrays (.ok (.ofVector [1])) (.ok (.ofVector [-1])) =
        .ok ([[⟨1, -1⟩, ⟨1, -1⟩]] ++ [[⟨2, 0⟩]]) := by decide +kernel
    rw [(List.append_inj' (Except.ok.inj (hbounds.symm.trans hfound)) rfl).1] at htable
    exact ⟨f, w', h, htable⟩

end ReluMilp
