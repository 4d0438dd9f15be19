import ReluMilp.Proofs.Exactness
import ReluMilp.Proofs.Relaxing

/-!
# Tightened bounds lie within the intervals of the box

Whatever solves fail, a tightened interval does not cross, and it lies within the one that the box gives.
Intervals that cross would spoil this: a negative weight exchanges bounds, so that only intervals that
do not cross are passed on in their order.

* `Interval.Nests` — an interval that does not cross within another one;
* `Interval.Nests.scale`, `Interval.Nests.clamp`, `weighted_nests`, `Layer.intervals_nests` — the operations
  on intervals keep it;
* `improveAll_nests` — optima of which each is reached or not keep it as well, since one that is reached
  comes with a feasible assignment;
* `buildHidden_nests`, `retighten_within` — hidden layers that are built, and bounded again;
* `tightened_bounds_nested` — the bounds of a network that is formulated.
-/

namespace ReluMilp

open Scalar

/-! ### Operations on intervals -/

/-- The second interval lies within the first, and its bounds do not cross. -/
structure Interval.Nests (i j : Interval Rat) : Prop where
  lower : i.lower ≤ j.lower
  proper : j.lower ≤ j.upper
  upper : j.upper ≤ i.upper

theorem Interval.Has.proper {i : Interval Rat} {a : Rat} (h : i.Has a) : i.lower ≤ i.upper := h.1.trans h.2

theorem scale_proper (w : Rat) (i : Interval Rat) :
    (Interval.scale w i).lower ≤ (Interval.scale w i).upper := by
  unfold Interval.scale
  rw [larger_eq_max, smaller_eq_min]
  exact min_le_max

/-- A weighted sum of intervals never crosses, even if they do. -/
theorem weighted_proper (ws : List Rat) (is : List (Interval Rat)) :
    (Interval.weighted ws is).lower ≤ (Interval.weighted ws is).upper := by
  induction ws generalizing is with
  | nil => exact le_rfl
  | cons w ws ih =>
    cases is with
    | nil => exact le_rfl
    | cons i is => exact add_le_add (scale_proper w i) (ih is)

theorem Neuron.interval_proper (n : Neuron Rat) (is : List (Interval Rat)) :
    (n.interval is).lower ≤ (n.interval is).upper :=
  add_le_add (weighted_proper n.weights is) le_rfl

namespace Interval.Nests

variable {i j k : Interval Rat}

theorem refl (h : i.lower ≤ i.upper) : i.Nests i := ⟨le_rfl, h, le_rfl⟩

theorem trans (hij : i.Nests j) (hjk : j.Nests k) : i.Nests k :=
  ⟨hij.lower.trans hjk.lower, hjk.proper, hjk.upper.trans hij.upper⟩

/-- The bounds of the inner interval lie in the outer one, so that their products do. -/
theorem scale (h : i.Nests j) (w : Rat) : (Interval.scale w i).Nests (Interval.scale w j) := by
  have hu : i.Has j.upper := ⟨h.lower.trans h.proper, h.upper⟩
  have hl : i.Has j.lower := ⟨h.lower, h.proper.trans h.upper⟩
  obtain ⟨hu₁, hu₂⟩ := hu.scale w
  obtain ⟨hl₁, hl₂⟩ := hl.scale w
  refine ⟨?_, scale_proper w j, ?_⟩
  · show _ ≤ smaller (w * j.upper) (w * j.lower)
    rw [smaller_eq_min]
    exact le_min hu₁ hl₁
  · show larger (w * j.upper) (w * j.lower) ≤ _
    rw [larger_eq_max]
    exact max_le hu₂ hl₂

theorem clamp (h : i.Nests j) : i.clamp.Nests j.clamp := by
  have hrelu : ∀ a b : Rat, a ≤ b → relu a ≤ relu b := by
    intro a b hab
    rw [relu_eq_max, relu_eq_max]
    exact max_le_max hab le_rfl
  exact ⟨hrelu _ _ h.lower, hrelu _ _ h.proper, hrelu _ _ h.upper⟩

end Interval.Nests

theorem weighted_nests {is js : List (Interval Rat)} (h : List.Forall₂ Interval.Nests is js)
    (ws : List Rat) : (Interval.weighted ws is).Nests (Interval.weighted ws js) := by
  induction h generalizing ws with
  | nil =>
    unfold Interval.weighted
    rw [List.zipWith_nil_right]
    exact .refl le_rfl
  | @cons i j is js hij _ ih =>
    cases ws with
    | nil => exact .refl le_rfl
    | cons w ws =>
      have hw := hij.scale w
      have hws := ih ws
      exact ⟨add_le_add hw.lower hws.lower, add_le_add hw.proper hws.proper, add_le_add hw.upper hws.upper⟩

theorem Neuron.interval_nests (n : Neuron Rat) {is js : List (Interval Rat)}
    (h : List.Forall₂ Interval.Nests is js) : (n.interval is).Nests (n.interval js) := by
  have hs := weighted_nests h n.weights
  exact ⟨add_le_add hs.lower le_rfl, add_le_add hs.proper le_rfl, add_le_add hs.upper le_rfl⟩

/-- Narrower intervals of what a layer reads give narrower intervals of its affine values. -/
theorem Layer.intervals_nests (l : Layer Rat) (rectified : Bool) {before before' : List (Interval Rat)}
    (h : List.Forall₂ Interval.Nests before before') :
    List.Forall₂ Interval.Nests (l.intervals rectified before) (l.intervals rectified before') := by
  have hin : List.Forall₂ Interval.Nests (if rectified then before.map Interval.clamp else before)
      (if rectified then before'.map Interval.clamp else before') := by
    cases rectified with
    | false => exact h
    | true =>
      show List.Forall₂ Interval.Nests (before.map Interval.clamp) (before'.map Interval.clamp)
      rw [List.forall₂_map_left_iff, List.forall₂_map_right_iff]
      exact h.imp fun _ _ hij => hij.clamp
  unfold Layer.intervals
  rw [List.forall₂_map_left_iff, List.forall₂_map_right_iff, List.forall₂_same]
  exact fun n _ => n.interval_nests hin

/-! ### Optima of which some are missing -/

section Improve

variable {solver : Solver Rat} {m : Model Rat} {prev : List VarId}

/-- Whatever optima are missing, the better bounds of an interval that does not cross do not cross
either: every optimum is on its side of some value in the interval. -/
theorem improve_nests {i : Interval Rat} {o : Optima Rat} (hi : i.lower ≤ i.upper)
    (h : o = ⟨none, none⟩ ∨ ∃ p, i.Has p ∧ o.Bounds p) : i.Nests (i.improve o.upper o.lower) := by
  obtain ⟨hupper, hlower⟩ := improve_within i o.upper o.lower
  refine ⟨hlower, ?_, hupper⟩
  rcases h with rfl | ⟨p, hp, ho⟩
  · rw [improve_eq]
    exact max_le (le_min hi hi) (le_min hi hi)
  · exact (improve_has ho hp).proper

/-- Known bounds of a layer, improved by what optima there are. -/
theorem improveAll_nests {ns : List (Neuron Rat)} {is : List (Interval Rat)} {os : List (Optima Rat)}
    (hs : solver.Sound) (hg : solver.Grounded) (hproper : ∀ i ∈ is, i.lower ≤ i.upper)
    (hhas : ∀ x, m.Feasible x → List.Forall₂ (fun n i => i.Has (n.preactivation (prev.map x))) ns is)
    (ho : List.Forall₂ (fun n o => o.From solver false m prev n) ns os) (hlen : ns.length = is.length) :
    List.Forall₂ Interval.Nests is (improveAll is os) := by
  induction ho generalizing is with
  | nil =>
    cases is with
    | nil => exact .nil
    | cons i is => cases hlen
  | cons hfrom _ ih =>
    cases is with
    | nil => cases hlen
    | cons i is =>
      obtain ⟨hi, his⟩ := List.forall_mem_cons.1 hproper
      refine .cons (improve_nests hi ?_)
        (ih his (fun x hx => (List.forall₂_cons.1 (hhas x hx)).2) (Nat.succ.inj hlen))
      refine (hfrom.exists_feasible hg).imp_right ?_
      rintro ⟨x, hx⟩
      exact ⟨_, (List.forall₂_cons.1 (hhas x hx)).1, hfrom.bounds hs hx⟩

end Improve

/-! ### Hidden layers -/

section Builds

variable {solver : Solver Rat} {r : Request Rat} {prev : List VarId} {rectified : Bool}
  {fast before is : List (Interval Rat)} {w w' : Workspace Rat}

/-- Without given bounds, the bounds of a layer lie within the intervals that wider ones before it give. -/
theorem layerBounds_nests {k : Nat} {l : Layer Rat} (hs : solver.Sound) (hg : solver.Grounded)
    (hgiven : r.given = none) (hfast : List.Forall₂ Interval.Nests fast before)
    (hbefore : ∀ x, (w.model.loosened r.settings.relax).Feasible x → Encloses rectified before (prev.map x))
    (h : layerBounds solver r k prev rectified before l w = .ok is w') :
    List.Forall₂ Interval.Nests (l.intervals rectified fast) is := by
  have hknown := l.intervals_nests rectified hfast
  obtain ⟨-, ⟨table, ht, -⟩ | ⟨-, rfl | ⟨os, rfl, hos⟩⟩⟩ := layerBounds_eq_ok h
  · rw [hgiven] at ht
    cases ht
  · exact hknown
  · have hproper : ∀ i ∈ l.intervals rectified before, i.lower ≤ i.upper :=
      List.forall_mem_map.2 fun n _ => n.interval_proper _
    have hbetter := improveAll_nests hs hg hproper (fun x hx => l.intervals_has (hbefore x hx))
      (hos.imp fun n o ho => ho.loosened) (l.length_intervals rectified before).symm
    exact forall₂_trans (fun _ _ _ hij hjk => hij.trans hjk) hknown hbetter

/-- Hidden layers one after the other: their bounds lie within the intervals that go through them from wider
ones, and so do those after them. -/
theorem buildHidden_nests {i : Nat} {ls : List (Layer Rat)} {stem : Stem Rat} (hs : solver.Sound)
    (hg : solver.Grounded) (hgiven : r.given = none) (hm : w.model.WellFormed)
    (hprev : ∀ id ∈ prev, id < w.model.nextVar) (hfast : List.Forall₂ Interval.Nests fast before)
    (hbefore : ∀ x, (w.model.loosened r.settings.relax).Feasible x → Encloses rectified before (prev.map x))
    (h : buildHidden solver r (i + 1) prev rectified before ls w = .ok stem w') :
    (∀ x, (w'.model.loosened r.settings.relax).Feasible x →
        Encloses stem.rectified stem.bounds (stem.last.map x)) ∧
      ∃ last table, List.Forall₂ Interval.Nests last stem.bounds ∧
        List.Forall₂ (List.Forall₂ Interval.Nests) table stem.table ∧
        ∀ ls', intervalsFrom rectified fast (ls ++ ls') = table ++ intervalsFrom stem.rectified last ls' := by
  have hfits : ∀ i ls, r.Fits i ls := by
    intro i ls table ht
    rw [hgiven] at ht
    cases ht
  induction ls generalizing i prev rectified fast before stem w with
  | nil =>
    obtain ⟨rfl, rfl⟩ := Action.pure_eq_ok.1 h
    exact ⟨hbefore, fast, [], hfast, .nil, fun _ => rfl⟩
  | cons l ls ih =>
    obtain ⟨is, us, rest, w₁, w₂, his, hus, hrest, rfl⟩ := buildHidden_cons h
    have hm₁ := (layerBounds_eq_ok his).1
    have hprev₁ : ∀ id ∈ prev, id < w₁.model.nextVar := by
      rw [hm₁]
      exact hprev
    have hlayer := addHidden_added hprev₁ (length_layerBounds (hfits i (l :: ls)) his) hus
    rw [hm₁] at hlayer
    have hnests := layerBounds_nests hs hg hgiven hfast hbefore his
    have hnext : ∀ id ∈ us.map (·.x), id < w₂.model.nextVar :=
      fun id hid => (hlayer.adds.vars_new (mem_xs_unitVars hid)).2
    -- a relaxed layer still passes on values in its intervals
    have hbefore₂ : ∀ x, (w₂.model.loosened r.settings.relax).Feasible x →
        Encloses true is ((us.map (·.x)).map x) := by
      intro x hx
      obtain ⟨hx₁, hloose⟩ := (hlayer.loosened_iff hm).1 hx
      exact encloses_loose (layerBounds_loosened hs hgiven his (hbefore x hx₁) hx₁) hloose
    obtain ⟨hlast, last, table, hbounds, htable, heq⟩ :=
      ih (hlayer.adds.wellFormed hm) hnext hnests hbefore₂ hrest
    refine ⟨hlast, last, l.intervals rectified fast :: table, hbounds, .cons hnests htable, fun ls' => ?_⟩
    show l.intervals rectified fast :: intervalsFrom true (l.intervals rectified fast) (ls ++ ls') = _
    rw [heq]
    rfl

/-- Hidden layers that are bounded again: no bound gets worse. -/
theorem retighten_within {n : Network Rat} {b : Body} {k : Nat} {lpre ls : List (Layer Rat)}
    {pre uss uss' : List (List HiddenUnit)} {tpre iss iss' : List (List (Interval Rat))}
    (hn : n.hidden = lpre ++ ls) (hl : lpre.length = pre.length) (ht : tpre.length = pre.length)
    (hprev : lastVars b.inputs pre = prev) (hm : w.model.WellFormed)
    (hb : (b.withHidden (pre ++ uss)).Stands w.model n (tpre ++ iss))
    (h : retighten solver r k prev ls uss iss w = .ok (uss', iss') w') :
    List.Forall₂ (List.Forall₂ Interval.Within) iss iss' := by
  induction ls generalizing k prev lpre pre uss uss' tpre iss iss' w with
  | nil =>
    cases hb.rest hn hl ht
    obtain ⟨heq, rfl⟩ := Action.pure_eq_ok.1 h
    cases heq
    exact .nil
  | cons l ls ih =>
    cases hb.rest hn hl ht with
    | @cons _ _ us is _ uss iss hlayer _ =>
    obtain ⟨os, us', uss₂, iss₂, w₂, rfl, rfl, -, hos, -, -, -, hm₂, hb₂, -, hlater⟩ :=
      retighten_cons hn hl ht hprev hm hb h
    have hlen : os.length = is.length := hos.length_eq.symm.trans hlayer.length_right.symm
    rw [List.append_cons lpre] at hn
    exact .cons (improveAll_within hlen) (ih hn (length_snoc hl l us') (length_snoc ht _ us')
      (lastVars_append_singleton b.inputs pre us') hm₂ hb₂ hlater)

variable {f : Formulation Rat}

/-- The box of a request, whose intervals do not cross, lies within itself. -/
theorem BuildArguments.Asks.box_nests {a : BuildArguments Rat} (h : a.Asks r) :
    List.Forall₂ Interval.Nests r.box r.box := by
  obtain ⟨v, hv⟩ := h.exists_mem_box
  rw [List.forall₂_same]
  intro i hi
  obtain ⟨x, hx⟩ : ∃ x, i.Has x := exists_of_forall₂ hv.flip hi
  exact .refl hx.proper

/-- The rows of the inputs keep them in the box, also in a relaxed model. -/
theorem Request.Assembles.box_of_loosened {s : Assembled Rat} {stem : Stem Rat} {w₁ w₂ : Workspace Rat}
    (h : r.Assembles solver s stem w w₁ w₂ w') (hr : r.WellFormed) {relax : Bool} {x : Assignment Rat}
    (hx : (w₁.model.loosened relax).Feasible x) : List.Forall₂ Interval.Has r.box (s.body.inputs.map x) :=
  ((h.loosened_boxed hr).1 hx).2

/-- On the way of a build, the hidden layers are bounded within the intervals of the box. -/
theorem Request.Assembles.nests {s : Assembled Rat} {stem : Stem Rat} {w₁ w₂ : Workspace Rat}
    (h : r.Assembles solver s stem w w₁ w₂ w') (hs : solver.Sound) (hg : solver.Grounded)
    (hgiven : r.given = none) (hr : r.WellFormed) (hm : w.model.WellFormed)
    (hbox : List.Forall₂ Interval.Nests r.box r.box) :
    ∃ table last, List.Forall₂ (List.Forall₂ Interval.Nests) table s.table ∧
      List.Forall₂ Interval.Nests last s.bounds ∧ r.network.intervals r.box = table ++ [last] := by
  have hbefore : ∀ x, (w₁.model.loosened r.settings.relax).Feasible x →
      Encloses false r.box (s.body.inputs.map x) := fun x hx => h.box_of_loosened hr hx
  obtain ⟨hlast, fast, table, hfast, htable, heq⟩ := buildHidden_nests hs hg hgiven
    (h.adds_inputs.wellFormed hm) (fun id hid => (h.adds_inputs.vars_new hid).2) hbox hbefore h.hidden
  obtain ⟨v, hout⟩ := h.bounds
  have hnests := layerBounds_nests hs hg hgiven hfast hlast hout
  rw [← h.table] at htable
  exact ⟨table, _, htable, hnests, heq [r.network.output]⟩

/-- Without bounds on the output, every layer of a build is bounded within the intervals of the box. -/
theorem Request.build_nests (hs : solver.Sound) (hg : solver.Grounded) (hgiven : r.given = none)
    (hplan : r.plan = .standard) (hr : r.WellFormed) (hm : w.model.WellFormed)
    (hbox : List.Forall₂ Interval.Nests r.box r.box) (h : r.build solver w = .ok f w') :
    List.Forall₂ (List.Forall₂ Interval.Nests) (r.network.intervals r.box) f.table := by
  rw [r.build_eq] at h
  obtain ⟨s, w₃, hass, h⟩ := Action.bind_eq_ok.1 h
  obtain ⟨stem, w₁, w₂, hass⟩ := assemble_eq_ok hass
  unfold Request.finish at h
  rw [hplan] at h
  obtain ⟨rfl, rfl⟩ := Action.pure_eq_ok.1 h
  obtain ⟨table, last, htable, hlast, heq⟩ := hass.nests hs hg hgiven hr hm hbox
  rw [heq]
  exact List.rel_append htable (.cons hlast .nil)

/-- With bounds on the output, no bound of a hidden layer is worse than the interval of the box. -/
theorem Request.build_within {range : List (Interval Rat)} (hs : solver.Sound) (hg : solver.Grounded)
    (hgiven : r.given = none) (hplan : r.plan = .output range) (hr : r.WellFormed) (hm : w.model.WellFormed)
    (hbox : List.Forall₂ Interval.Nests r.box r.box) (h : r.build solver w = .ok f w') :
    ∃ fast last table, r.network.intervals r.box = fast ++ [last] ∧ f.table = table ++ [range] ∧
      List.Forall₂ (List.Forall₂ Interval.Within) fast table := by
  rw [r.build_eq] at h
  obtain ⟨s, w₃, hass, h⟩ := Action.bind_eq_ok.1 h
  obtain ⟨stem, w₁, w₂, hass⟩ := assemble_eq_ok hass
  unfold Request.finish at h
  rw [hplan] at h
  obtain ⟨⟨units, table⟩, v, hre, h⟩ := Action.bind_eq_ok.1 h
  obtain ⟨rfl, rfl⟩ := Action.pure_eq_ok.1 h
  obtain ⟨fast, last, hfast, -, heq⟩ := hass.nests hs hg hgiven hr hm hbox
  have hstands : (s.body.withHidden ([] ++ s.body.hidden)).Stands w₃.model r.network ([] ++ s.table) :=
    hass.stands hr
  have hn : r.network.hidden = [] ++ r.network.hidden := rfl
  have hwithin := retighten_within hn rfl rfl rfl ((hass.adds hr).wellFormed hm) hstands hre
  refine ⟨fast, last, table, heq, rfl, forall₂_trans ?_ hfast hwithin⟩
  exact fun _ _ _ hij hjk => forall₂_trans (fun _ _ _ h h' => ⟨h'.1.trans h.upper, h.lower.trans h'.2⟩) hij hjk

end Builds

/-! ### Formulated networks -/

/-- Whatever the model holds, whether it is relaxed, wherever the solves are done and whichever of them
fail, tightened bounds lie within those that go through the network from the box: in standard mode those
of every layer, which do not cross; with bounds on the output those of the hidden layers. A network is
formulated whenever its request is accepted, the threads and the jobs are, all names fit and every
solve ends. -/
theorem tightened_bounds_nested {solver : Solver Rat} {settings : Option Settings} {a : BuildArguments Rat}
    {w : Workspace Rat} (hs : solver.Sound) (hg : solver.Grounded) (hm : w.model.WellFormed)
    (hupper : a.boundsUpper = .absent) (hlower : a.boundsLower = .absent) :
    (∀ f w', formulateNetwork solver settings a w = .ok f w' →
      ∃ n us ls fast, a.network = .ok n ∧ f.network = n ∧ Reads a.inputUpper n.inputs us ∧
        Reads a.inputLower n.inputs ls ∧
        n.boundsOfArrays (.ok (.ofVector us)) (.ok (.ofVector ls)) = .ok fast ∧
        (Mode.ofValue a.mode = .ok .standard → List.Forall₂ (List.Forall₂ Interval.Nests) fast f.table) ∧
        (Mode.ofValue a.mode = .ok .output → ∃ hidden last table range, fast = hidden ++ [last] ∧
          f.table = table ++ [range] ∧ table.length = n.hidden.length ∧
          List.Forall₂ (List.Forall₂ Interval.Within) hidden table)) ∧
    (∀ r, ({ a with settings := settings.getD .default } : BuildArguments Rat).request = .ok r →
      solver.Total → (settings.getD .default).Accepted → (∀ fault, Jobs.ofValue a.jobs ≠ .none fault) →
      r.NamesFit → ∃ f w', formulateNetwork solver settings a w = .ok f w') := by
  constructor
  · intro f w' h
    obtain ⟨r, w₀, hreq, hw₀, h⟩ := formulateNetwork_eq_ok h
    have hasks := request_eq_ok hreq
    obtain ⟨hr, hgiven⟩ := hasks.of_absent hupper hlower
    have hm₀ : w₀.model.WellFormed := by
      rw [hw₀]
      exact Model.wellFormed_parameters hm _
    obtain ⟨us, ls, hus, hls, hbox, -⟩ := hasks.box.bounds
    obtain ⟨hnetwork, -⟩ := Request.build_stands hr hm₀ h
    have hfast := boundsOfArrays_ofVector r.network hus.length_eq hls.length_eq
    rw [← hbox] at hfast
    refine ⟨r.network, us, ls, _, hasks.network, hnetwork, hus, hls, hfast, fun hmode => ?_, fun hmode => ?_⟩
    · exact Request.build_nests hs hg hgiven (hasks.plan_standard hmode) hr hm₀ hasks.box_nests h
    · obtain ⟨range, hplan⟩ := hasks.plan_output hmode
      obtain ⟨fast, last, table, heq, htable, hwithin⟩ :=
        Request.build_within hs hg hgiven hplan hr hm₀ hasks.box_nests h
      refine ⟨fast, last, table, range, heq, htable, ?_, hwithin⟩
      have hlen := congrArg List.length (r.network.length_intervals r.box)
      rw [heq] at hlen
      unfold Network.neuronCount Network.layers at hlen
      simp only [List.length_map, List.length_append, List.length_singleton] at hlen
      rw [← hwithin.length_eq]
      exact Nat.add_right_cancel hlen
  · intro r hreq htotal hset hjobs hfit
    obtain ⟨hsettings, hr⟩ := request_settings hreq
    have hsolvable : r.Solvable solver := by
      refine ⟨htotal, ?_, ?_⟩
      · rw [hsettings]
        exact hset
      · rw [hr]
        exact hjobs
    exact formulateNetwork_succeeds hreq (BuildArguments.faithful_of_absent hupper hlower) hsolvable hfit hm

/-- Every second solve fails: there are upper bounds, but no lower ones. -/
theorem tightened_bounds_nested_absolute :
    ∃ f w', formulateNetwork (.unless (fun k _ => k % 2 = 1) .ideal) none (.absolute "standard")
        (.ofModel (.empty "model")) = .ok f w' ∧
      List.Forall₂ (List.Forall₂ Interval.Nests) [[⟨1, -1⟩, ⟨1, -1⟩], [⟨2, 0⟩]] f.table := by
  obtain ⟨hnested, htotal⟩ := @tightened_bounds_nested (.unless (fun k _ => k % 2 = 1) .ideal) none
    (.absolute "standard") (.ofModel (.empty "model")) exact_ideal.sound.unless exact_ideal.grounded.unless
    (Model.wellFormed_empty "model") rfl rfl
  have hjobs : ∀ fault, Jobs.ofValue (.int 1) ≠ .none fault := nofun
  obtain ⟨f, w', h⟩ := htotal .absolute rfl exact_ideal.total.unless (by decide) hjobs namesFit_absolute
  obtain ⟨n, us, ls, fast, hn, -, hus, hls, hfast, hstandard, -⟩ := hnested f w' h
  cases hn
  obtain ⟨_, hus, rfl, -⟩ := hus
  cases hus
  obtain ⟨_, hls, rfl, -⟩ := hls
  cases hls
  have hbounds : Network.absolute.boundsOfArrays (.ok (.ofVector [1])) (.ok (.ofVector [-1])) =
      .ok [[⟨1, -1⟩, ⟨1, -1⟩], [⟨2, 0⟩]] := by decide +kernel
  cases hbounds.symm.trans hfast
  exact ⟨f, w', h, hstandard (by decide +kernel)⟩

end ReluMilp
