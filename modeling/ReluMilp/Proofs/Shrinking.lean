import ReluMilp.Proofs.Boxes
import ReluMilp.Proofs.Strength

/-!
# Bounds shrink with the box

A box within another one gives intervals within those of the other one, layer by layer. The same holds of
bounds that are found by optimisation: what the smaller box admits is admitted by the larger one.

* `intervalsFrom_nests` — intervals that go through consecutive layers;
* `Interval.Spans.nests`, `TableSpans.nests` — the extremes over vectors that are among others;
* `Formulates.nests` — two networks that are formulated by optimisation;
* `bounds_shrink` — both kinds of bounds for a network on two boxes.
-/

namespace ReluMilp

open Scalar

/-! ### Intervals -/

/-- A box within another one: its bounds do not cross. -/
theorem ofLists_nests {us ls us' ls' : List Rat} (hlower : List.Forall₂ (· ≤ ·) ls ls')
    (hproper : List.Forall₂ (· ≤ ·) ls' us') (hupper : List.Forall₂ (· ≤ ·) us' us) :
    List.Forall₂ Interval.Nests (Interval.ofLists us ls) (Interval.ofLists us' ls') := by
  induction hproper generalizing us ls with
  | nil =>
    cases hlower
    cases hupper
    exact .nil
  | cons hle _ ih =>
    cases hlower with
    | cons hl hlower =>
      cases hupper with
      | cons hu hupper => exact .cons ⟨hl, hle, hu⟩ (ih hlower hupper)

/-- Narrower intervals stay narrower through consecutive layers. -/
theorem intervalsFrom_nests {before before' : List (Interval Rat)}
    (h : List.Forall₂ Interval.Nests before before') (rectified : Bool) (ls : List (Layer Rat)) :
    List.Forall₂ (List.Forall₂ Interval.Nests) (intervalsFrom rectified before ls)
      (intervalsFrom rectified before' ls) := by
  induction ls generalizing before before' rectified with
  | nil => exact .nil
  | cons l ls ih =>
    have hlayer := l.intervals_nests rectified h
    exact .cons hlayer (ih hlayer true)

/-! ### Extremes -/

/-- The extremes of some numbers lie within those of more. -/
theorem Interval.Spans.nests {i j : Interval Rat} {s t : Set Rat} (hi : i.Spans s) (hj : j.Spans t)
    (hts : t ⊆ s) : i.Nests j where
  lower := hi.lower.2 (hts hj.lower.1)
  proper := hj.lower.2 hj.upper.1
  upper := hi.upper.2 (hts hj.upper.1)

/-- So do those of the affine values of consecutive layers. -/
theorem TableSpans.nests {V V' : Set (List Rat)} {ls : List (Layer Rat)}
    {table table' : List (List (Interval Rat))} (h : TableSpans V ls table) (h' : TableSpans V' ls table')
    (hsub : V' ⊆ V) : List.Forall₂ (List.Forall₂ Interval.Nests) table table' := by
  induction h generalizing V' table' with
  | nil =>
    cases h'
    exact .nil
  | @cons V l is ls table hl _ ih =>
    cases h' with
    | cons hl' h' =>
      refine .cons (forall₂_trans ?_ hl.flip hl') (ih h' (Set.image_mono hsub))
      exact fun _ n _ hi hj => hi.nests hj (Set.image_mono hsub)

/-! ### Boxes of formulated networks -/

theorem mem_box_of_nests {box box' : List (Interval Rat)} (h : List.Forall₂ Interval.Nests box box')
    {v : List Rat} (hv : List.Forall₂ Interval.Has box' v) : List.Forall₂ Interval.Has box v :=
  forall₂_trans (fun _ _ _ hij hj => ⟨hij.lower.trans hj.1, hj.2.trans hij.upper⟩) h hv

section Formulates

variable {a b : BuildArguments Rat} {n : Network Rat} {us ls us' ls' : List Rat}
  {solver solver' : Solver Rat} {f g : Formulation Rat}

/-- Optimisation finds the extremes over the box. -/
theorem BuildArguments.Formulates.spans (ha : a.OnBox n us ls) (hs : solver.Exact)
    (hf : a.Formulates solver .standard false f) :
    TableSpans {v | List.Forall₂ Interval.Has (Interval.ofLists us ls) v} n.layers f.table := by
  obtain ⟨r, w, w', hasks, hmode, hr, hgiven, hrelax, hvars, hrows, -, h⟩ := hf.exists_build
  obtain ⟨hnetwork, -, hbox⟩ := ha.of_asks hasks
  have hspans := Request.build_standard hs hrelax hgiven (hasks.plan_standard hmode) hr hvars hrows
    hasks.exists_mem_box h
  rw [hnetwork, hbox] at hspans
  exact hspans

theorem BuildArguments.Formulates.nests (ha : a.OnBox n us ls) (hb : b.OnBox n us' ls')
    (hs : solver.Exact) (hs' : solver'.Exact)
    (hbox : List.Forall₂ Interval.Nests (Interval.ofLists us ls) (Interval.ofLists us' ls'))
    (hf : a.Formulates solver .standard false f) (hg : b.Formulates solver' .standard false g) :
    List.Forall₂ (List.Forall₂ Interval.Nests) f.table g.table :=
  (hf.spans ha hs).nests (hg.spans hb hs') fun _ hv => mem_box_of_nests hbox hv

end Formulates

/-- Bounds shrink with the box. For a box within another one, neither of them crossed, the intervals that go
through a network lie within those of the larger box, and none of them is crossed; there is one for every
neuron. The same holds of the tables in standard mode, each with an exact solver, without relaxation and on
a model without anything else. On each of the two boxes the network is formulated if the settings and the
jobs are taken and all names fit. -/
theorem bounds_shrink (n : Network Rat) {us ls us' ls' : List Rat} (hwidth : us.length = n.inputs)
    (hlower : List.Forall₂ (· ≤ ·) ls ls') (hproper : List.Forall₂ (· ≤ ·) ls' us')
    (hupper : List.Forall₂ (· ≤ ·) us' us) :
    (∃ wide narrow, n.boundsOfArrays (.ok (.ofVector us)) (.ok (.ofVector ls)) = .ok wide ∧
      n.boundsOfArrays (.ok (.ofVector us')) (.ok (.ofVector ls')) = .ok narrow ∧
      wide.map List.length = n.neuronCount ∧ List.Forall₂ (List.Forall₂ Interval.Nests) wide narrow) ∧
    ∀ (a b : BuildArguments Rat) (solver solver' : Solver Rat), a.OnBox n us ls → b.OnBox n us' ls' →
      Mode.ofValue a.mode = .ok .standard → Mode.ofValue b.mode = .ok .standard →
      solver.Exact → solver'.Exact →
      (∀ f g, a.Formulates solver .standard false f → b.Formulates solver' .standard false g →
        f.table.map List.length = n.neuronCount ∧
          List.Forall₂ (List.Forall₂ Interval.Nests) f.table g.table) ∧
      (∀ settings (w : Workspace Rat), w.model.WellFormed → a.Ready settings →
        ∃ f w', formulateNetwork solver settings a w = .ok f w') ∧
      ∀ settings (w : Workspace Rat), w.model.WellFormed → b.Ready settings →
        ∃ g w', formulateNetwork solver' settings b w = .ok g w' := by
  have hbox := ofLists_nests hlower hproper hupper
  have hl : ls.length = n.inputs :=
    (hlower.length_eq.trans hproper.length_eq).trans (hupper.length_eq.trans hwidth)
  refine ⟨?_, fun a b solver solver' ha hb hmode hmode' hs hs' => ⟨?_, ?_, ?_⟩⟩
  · have hwide := boundsOfArrays_ofVector n hwidth hl
    have hnarrow := boundsOfArrays_ofVector n (hupper.length_eq.trans hwidth)
      (hlower.length_eq.symm.trans hl)
    exact ⟨_, _, hwide, hnarrow, n.length_intervals _, intervalsFrom_nests hbox false n.layers⟩
  · intro f g hf hg
    exact ⟨(hf.spans ha hs).length_eq, hf.nests ha hb hs hs' hbox hg⟩
  · intro settings w hm hready
    have htrans : ∀ x y z : Rat, x ≤ y → y ≤ z → x ≤ z := fun _ _ _ => le_trans
    have hle : List.Forall₂ (· ≤ ·) ls us := forall₂_trans htrans (forall₂_trans htrans hlower hproper) hupper
    exact ha.formulated hle hmode nofun hready hs.total hm
  · intro settings w hm hready
    exact hb.formulated hproper hmode' nofun hready hs'.total hm

/-- Arguments for the absolute value on another box. -/
def BuildArguments.absoluteWithin (u l : Rat) : BuildArguments Rat :=
  { absolute "standard" with
    inputUpper := some (.ok (.ofVector [u]))
    inputLower := some (.ok (.ofVector [l])) }

/-- The absolute value between minus one and two, within the box from minus four to four. -/
theorem bounds_shrink_absolute :
    Network.absolute.boundsOfArrays (.ok (.ofVector [4])) (.ok (.ofVector [-4])) =
        .ok [[⟨4, -4⟩, ⟨4, -4⟩], [⟨8, 0⟩]] ∧
      Network.absolute.boundsOfArrays (.ok (.ofVector [2])) (.ok (.ofVector [-1])) =
        .ok [[⟨2, -1⟩, ⟨1, -2⟩], [⟨3, 0⟩]] ∧
      List.Forall₂ (List.Forall₂ Interval.Nests) [[⟨4, -4⟩, ⟨4, -4⟩], [⟨8, 0⟩]]
        [[⟨2, -1⟩, ⟨1, -2⟩], [⟨3, 0⟩]] ∧
      ∃ f g, (BuildArguments.absoluteWithin 4 (-4)).Formulates .ideal .standard false f ∧
        (BuildArguments.absoluteWithin 2 (-1)).Formulates .ideal .standard false g ∧
        List.Forall₂ (List.Forall₂ Interval.Nests) f.table g.table := by
  have hwide : Network.absolute.boundsOfArrays (.ok (.ofVector [4])) (.ok (.ofVector [-4])) =
      .ok [[⟨4, -4⟩, ⟨4, -4⟩], [⟨8, 0⟩]] := by decide +kernel
  have hnarrow : Network.absolute.boundsOfArrays (.ok (.ofVector [2])) (.ok (.ofVector [-1])) =
      .ok [[⟨2, -1⟩, ⟨1, -2⟩], [⟨3, 0⟩]] := by decide +kernel
  have hmode : Mode.ofValue (.text "standard") = .ok .standard := by decide +kernel
  have hon : ∀ u l, (BuildArguments.absoluteWithin u l).OnBox .absolute [u] [l] :=
    fun u l => ⟨rfl, ⟨_, rfl, rfl, rfl⟩, ⟨_, rfl, rfl, rfl⟩, rfl, rfl⟩
  have hready : ∀ u l, { BuildArguments.absoluteWithin u l with settings := .default }.request =
      .ok { Request.absolute with box := [⟨u, l⟩] } → (BuildArguments.absoluteWithin u l).Ready none := by
    intro u l hreq
    refine ⟨by decide, nofun, fun r hr => ?_⟩
    cases hreq.symm.trans hr
    exact namesFit_absolute.congr rfl rfl
  obtain ⟨⟨wide, narrow, hw, hn, -, hnests⟩, hbuilds⟩ := @bounds_shrink .absolute [4] [-4] [2] [-1] rfl
    (.cons (by norm_num) .nil) (.cons (by norm_num) .nil) (.cons (by norm_num) .nil)
  cases hwide.symm.trans hw
  cases hnarrow.symm.trans hn
  obtain ⟨htables, hf, hg⟩ := hbuilds _ _ .ideal .ideal (hon 4 (-4)) (hon 2 (-1)) hmode hmode
    exact_ideal exact_ideal
  obtain ⟨f, w', hf⟩ := hf none (.ofModel (.empty "model")) (Model.wellFormed_empty "model") (hready _ _ rfl)
  obtain ⟨g, v', hg⟩ := hg none (.ofModel (.empty "model")) (Model.wellFormed_empty "model") (hready _ _ rfl)
  have hf' : (BuildArguments.absoluteWithin 4 (-4)).Formulates .ideal .standard false f :=
    ⟨none, _, w', hmode, rfl, rfl, rfl, rfl, rfl, hf⟩
  have hg' : (BuildArguments.absoluteWithin 2 (-1)).Formulates .ideal .standard false g :=
    ⟨none, _, v', hmode, rfl, rfl, rfl, rfl, rfl, hg⟩
  exact ⟨hwide, hnarrow, hnests, f, g, hf', hg', (htables f g hf' hg').2⟩

end ReluMilp
