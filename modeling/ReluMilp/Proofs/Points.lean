import ReluMilp.Proofs.Boxes
import ReluMilp.Proofs.Corners
import ReluMilp.Proofs.Lockstep
import ReluMilp.Proofs.Passes
import ReluMilp.Proofs.Tables

/-!
# Bounds at a point

Intervals that are one point are pushed through a network as the values themselves are: every operation on
intervals takes points to points.

* `Interval.point` — the interval of one value; `scale_point`, `weighted_point`, `clamp_point` — one operation
  each, `Neuron.interval_point`, `Layer.intervals_point`, `intervalsFrom_point` — whole layers;
* `Network.preactivations_eq` — the last affine values are the values of the network;
* `Request.build_fast`, `Request.build_fast_succeeds` — a build without optimisation stores the intervals of
  the box, and it depends on no solver;
* `HiddenUnit.HasParts` — the rows of a neuron hold the positive and the negative part of a value;
* `BuildArguments.AtPoint`, `AtPoint.onBox`, `AtPoint.exists_request` — arguments for a box that is one point, which
  is accepted like any other;
* `AtPoint.formulated`, `AtPoint.table`, `AtPoint.hasParts` — the network is formulated, with its affine values
  at the point in its table and their parts in its rows;
* `bounds_at_point` — the bounds, the rows and the forward pass of a network at a point.
-/

namespace ReluMilp

open Scalar

/-! ### Points -/

namespace Interval

/-- The interval of one value. -/
def point (a : Rat) : Interval Rat := ⟨a, a⟩

theorem scale_point (w a : Rat) : scale w (point a) = point (w * a) := by
  unfold scale
  rw [larger_eq_max, smaller_eq_min]
  exact congrArg₂ Interval.mk (max_self _) (min_self _)

theorem weighted_point (ws vs : List Rat) : weighted ws (vs.map point) = point (dot ws vs) := by
  induction vs generalizing ws with
  | nil =>
    unfold weighted
    rw [List.map_nil, List.zipWith_nil_right, dot_nil_right]
    rfl
  | cons v vs ih =>
    cases ws with
    | nil => rfl
    | cons w ws =>
      have htail := ih ws
      have hupper := congrArg Interval.upper htail
      have hlower := congrArg Interval.lower htail
      show Interval.mk ((scale w (point v)).upper + (weighted ws (vs.map point)).upper)
        ((scale w (point v)).lower + (weighted ws (vs.map point)).lower) = _
      rw [hupper, hlower, scale_point, dot_cons_cons]
      rfl

theorem clamp_point (a : Rat) : clamp (point a) = point (relu a) := rfl

theorem ofLists_self (v : List Rat) : ofLists v v = v.map point := List.zipWith_self

end Interval

theorem Neuron.interval_point (n : Neuron Rat) (vs : List Rat) :
    n.interval (vs.map .point) = .point (n.preactivation vs) := by
  unfold Neuron.interval
  rw [Interval.weighted_point]
  rfl

/-- The intervals of a layer at a point are its affine values on what it reads there. -/
theorem Layer.intervals_point (l : Layer Rat) (rectified : Bool) (v : List Rat) :
    l.intervals rectified (v.map .point) = (l.preactivations (passed rectified v)).map .point := by
  have hinputs : (if rectified then (v.map Interval.point).map Interval.clamp else v.map .point) =
      (passed rectified v).map .point := by
    cases rectified with
    | false => rfl
    | true =>
      show (v.map Interval.point).map Interval.clamp = (v.map relu).map .point
      rw [List.map_map, List.map_map]
      exact List.map_congr_left fun a _ => Interval.clamp_point a
  unfold Layer.intervals Layer.preactivations
  rw [hinputs, List.map_map]
  exact List.map_congr_left fun n _ => n.interval_point _

/-- What the next layer reads of a layer with the rectifier. -/
theorem passed_preactivations {l : Layer Rat} (hl : l.activation = .relu) (v : List Rat) :
    passed true (l.preactivations v) = l.eval v := by
  unfold Layer.eval
  rw [hl]
  rfl

theorem intervalsFrom_point {ls : List (Layer Rat)} (hrelu : ∀ l ∈ ls.dropLast, l.activation = .relu)
    (rectified : Bool) (v : List Rat) : intervalsFrom rectified (v.map .point) ls =
      (preactivationsFrom ls (passed rectified v)).map (·.map .point) := by
  -- after the first layer the points are those before the rectifier
  induction ls generalizing rectified v with
  | nil => rfl
  | cons l ls ih =>
    show l.intervals rectified (v.map .point) ::
      intervalsFrom true (l.intervals rectified (v.map .point)) ls = _
    rw [l.intervals_point]
    cases ls with
    | nil => rfl
    | cons l' ls =>
      rw [List.dropLast_cons_cons, List.forall_mem_cons] at hrelu
      rw [ih hrelu.2, passed_preactivations hrelu.1]
      rfl

theorem preactivationsFrom_concat (ls : List (Layer Rat)) (l : Layer Rat) (v : List Rat) :
    preactivationsFrom (ls ++ [l]) v =
      preactivationsFrom ls v ++ [l.preactivations (ls.foldl (fun x l => l.eval x) v)] := by
  induction ls generalizing v with
  | nil => rfl
  | cons l' ls ih => exact congrArg (l'.preactivations v :: ·) (ih (l'.eval v))

namespace Network

variable (n : Network Rat) (v : List Rat)

theorem intervals_point : n.intervals (v.map .point) = (n.preactivations v).map (·.map .point) :=
  intervalsFrom_point n.dropLast_relu false v

/-- The affine values of the hidden layers, and at last the values of the network. -/
theorem preactivations_eq : n.preactivations v = preactivationsFrom n.hidden v ++ [n.eval v] := by
  have heval : ∀ u, n.output.eval u = n.output.preactivations u := by
    intro u
    unfold Layer.eval
    rw [n.output_identity]
    exact List.map_id' _
  unfold Network.preactivations Network.eval Network.layers
  rw [preactivationsFrom_concat, List.foldl_append, List.foldl_cons, List.foldl_nil, heval]

end Network

/-! ### Builds without optimisation -/

section Builds

variable {solver : Solver Rat} {r : Request Rat} {f : Formulation Rat} {w w' : Workspace Rat}

/-- A build without given bounds and without optimisation stores the intervals of the box. -/
theorem Request.build_fast (hgiven : r.given = none) (hplan : r.plan = .fast)
    (h : r.build solver w = .ok f w') : f.table = r.network.intervals r.box := by
  obtain ⟨hidden, last, hall, htable⟩ :=
    Request.build_intervals hgiven (fun hnot => absurd hplan hnot) h
  rw [hplan] at htable
  exact htable.trans hall.symm

/-- A build without optimisation solves nothing, so that it needs neither a solver nor jobs. -/
theorem Request.build_fast_succeeds (hplan : r.plan = .fast) (hset : r.settings.Accepted)
    (hfit : r.NamesFit) (hr : r.WellFormed) (hm : w.model.WellFormed) :
    ∃ f w', r.build solver w = .ok f w' := by
  have hsolvable : (r.withJobs .inPlace).Solvable .ideal := ⟨exact_ideal.total, hset, nofun⟩
  obtain ⟨f, v, hbuild⟩ := Request.build_succeeds hsolvable (hfit.congr rfl rfl)
    ⟨hr.box_length, hr.given_widths, hr.range_length⟩ hm
  have hending : (r.build solver).ending w = ((r.withJobs .inPlace).build .ideal).ending w :=
    Request.build_ending (fun hsolves => absurd hplan hsolves.plan) rfl rfl
  obtain ⟨w', h, -⟩ := Action.ok_of_ending hbuild hending.symm
  exact ⟨f, w', h⟩

end Builds

/-! ### Boxes that are one point -/

/-- Arguments for a network on the box that is one point, without given bounds and without optimisation. -/
structure BuildArguments.AtPoint (a : BuildArguments Rat) (n : Network Rat) (v : List Rat) : Prop where
  network : a.network = .ok n
  mode : Mode.ofValue a.mode = .ok .fast
  upper : Reads a.inputUpper n.inputs v
  lower : Reads a.inputLower n.inputs v
  boundsUpper : a.boundsUpper = .absent
  boundsLower : a.boundsLower = .absent

namespace BuildArguments.AtPoint

variable {a : BuildArguments Rat} {n : Network Rat} {v : List Rat} {r : Request Rat}

theorem onBox (h : a.AtPoint n v) : a.OnBox n v v :=
  ⟨h.network, h.upper, h.lower, h.boundsUpper, h.boundsLower⟩

theorem withSettings (h : a.AtPoint n v) (settings : Settings) :
    ({ a with settings := settings } : BuildArguments Rat).AtPoint n v :=
  ⟨h.network, h.mode, h.upper, h.lower, h.boundsUpper, h.boundsLower⟩

/-- A box that is one point is accepted. -/
theorem exists_request (h : a.AtPoint n v) : ∃ r, a.request = .ok r :=
  h.onBox.exists_request (List.forall₂_same.2 fun _ _ => le_rfl) h.mode nofun

/-- The request is for the point. -/
theorem of_request (h : a.AtPoint n v) (hreq : a.request = .ok r) :
    r.network = n ∧ r.plan = .fast ∧ r.given = none ∧ r.box = v.map .point := by
  have hasks := request_eq_ok hreq
  obtain ⟨hnetwork, hgiven, hbox⟩ := h.onBox.of_asks hasks
  exact ⟨hnetwork, hasks.plan_fast h.mode, hgiven, hbox.trans (Interval.ofLists_self v)⟩

/-- The point is the input that the arguments admit. -/
theorem admits (h : a.AtPoint n v) : a.Admits n v := by
  refine ⟨(liesBetween_iff h.upper h.lower).2 ?_, fun hmode => ?_⟩
  · rw [Interval.ofLists_self, List.forall₂_map_left_iff, List.forall₂_same]
    exact fun a _ => ⟨le_rfl, le_rfl⟩
  · rw [h.mode] at hmode
    cases hmode

end BuildArguments.AtPoint

/-! ### Networks at a point -/

/-- The rows of a neuron hold the positive and the negative part of a value: there is exactly one upper row
for its variable and one lower row for its slack, and the parts are their constants. -/
structure HiddenUnit.HasParts (m : Model Rat) (u : HiddenUnit) (p : Rat) : Prop where
  upper : ∃ r, m.inequalitiesOn u.x = [r] ∧ r.id = u.upperRow ∧
    r.Reads (fun x => x u.x + max 0 p * x u.z) .le (max 0 p)
  lower : ∃ r, m.inequalitiesOn u.s = [r] ∧ r.id = u.lowerRow ∧
    r.Reads (fun x => x u.s - max 0 (-p) * x u.z) .le 0

/-- A neuron that is in step with a point holds the parts of its value. -/
theorem HiddenUnit.InStep.hasParts {m : Model Rat} {prev : List VarId} {n : Neuron Rat} {u : HiddenUnit}
    {p : Rat} (h : u.InStep m prev n (.point p)) : u.HasParts m p := ⟨h.upper, h.lower⟩

section Formulated

variable {solver : Solver Rat} {settings : Option Settings} {a : BuildArguments Rat} {n : Network Rat}
  {v : List Rat} {f : Formulation Rat} {w w' : Workspace Rat}

/-- A network on the box that is one point is formulated if its names fit. -/
theorem BuildArguments.AtPoint.formulated (h : a.AtPoint n v) (hset : ∀ s ∈ settings, s.Accepted)
    {r : Request Rat}
    (hreq : ({ a with settings := settings.getD .default } : BuildArguments Rat).request = .ok r)
    (hfit : r.NamesFit) (hm : w.model.WellFormed) :
    ∃ f w', formulateNetwork solver settings a w = .ok f w' := by
  have hpoint := h.withSettings (settings.getD .default)
  have haccepted : r.settings.Accepted := by
    rw [(request_settings hreq).1]
    show (settings.getD .default).Accepted
    cases settings with
    | none => decide
    | some s => exact hset s rfl
  obtain ⟨p, -, hok⟩ := formulateNetwork_eq hset solver a w
  rw [hok r hreq]
  exact Request.build_fast_succeeds (hpoint.of_request hreq).2.1 haccepted hfit
    ((request_eq_ok hreq).wellFormed hpoint.onBox.faithful) (Model.wellFormed_parameters hm p)

/-- A network on the box that is one point has its affine values there as bounds. -/
theorem BuildArguments.AtPoint.table (h : a.AtPoint n v)
    (hbuild : formulateNetwork solver settings a w = .ok f w') :
    f.table = (n.preactivations v).map (·.map .point) := by
  obtain ⟨r, w₀, hreq, -, hbuild⟩ := formulateNetwork_eq_ok hbuild
  obtain ⟨hnetwork, hplan, hgiven, hbox⟩ := (h.withSettings _).of_request hreq
  rw [Request.build_fast hgiven hplan hbuild, hnetwork, hbox, n.intervals_point]

/-- Its rows hold the parts of these values. -/
theorem BuildArguments.AtPoint.hasParts (h : a.AtPoint n v) (hm : w.model.WellFormed)
    (hbuild : formulateNetwork solver settings a w = .ok f w') :
    ∃ b, f.body? = some b ∧ List.Forall₂ (List.Forall₂ (HiddenUnit.HasParts w'.model)) b.hidden
      (preactivationsFrom n.hidden v) := by
  obtain ⟨-, b, table, last, hkept⟩ := formulateNetwork_keeps hm h.onBox.faithful hbuild
  have htable : table = (preactivationsFrom n.hidden v).map (·.map .point) := by
    have hstored := hkept.stored
    rw [h.table hbuild, n.preactivations_eq, List.map_append] at hstored
    exact (List.append_inj' hstored rfl).1.symm
  have hunits : List.Forall₂ (List.Forall₂ fun u i => ∀ p, i = .point p → u.HasParts w'.model p) b.hidden
      table := by
    refine (hkept.inStep (Model.wellFormed_parameters hm _)).forall₂ fun _ _ u i hi p hp => ?_
    rw [hp] at hi
    exact hi.hasParts
  rw [htable, List.forall₂_map_right_iff] at hunits
  refine ⟨b, hkept.body, hunits.imp fun us ps h => ?_⟩
  rw [List.forall₂_map_right_iff] at h
  exact h.imp fun u p hu => hu p rfl

end Formulated

/-- Interval evaluation at a point is evaluation: the bounds of every layer are its affine values, and the
last ones are the values of the network. On the box that is one point a network is accepted without
optimisation, and it is formulated if the settings are taken and all names fit; its table and its rows then
hold the affine values at the point and their parts. In a model that holds nothing but networks formulated
without given bounds and without bounds on the outputs, with any objective over the variables of this one,
the forward pass at the point gives the values of the network. -/
theorem bounds_at_point (n : Network Rat) (v : List Rat) (hv : v.length = n.inputs) :
    ∃ u, n.forward (.ofVector v) = .ok (.ofVector u) ∧ (n.preactivations v).getLast? = some u ∧
      n.boundsOfArrays (.ok (.ofVector v)) (.ok (.ofVector v)) =
        .ok ((n.preactivations v).map (·.map .point)) ∧
      ∀ (builder solver : Solver Rat) (settings : Option Settings) (a : BuildArguments Rat), a.AtPoint n v →
        (∃ r, ({ a with settings := settings.getD .default } : BuildArguments Rat).request = .ok r ∧
          ((∀ s ∈ settings, s.Accepted) → r.NamesFit → ∀ w₁ : Workspace Rat, w₁.model.WellFormed →
            ∃ f w₂, formulateNetwork builder settings a w₁ = .ok f w₂)) ∧
        ∀ (f : Formulation Rat) (w₁ w₂ : Workspace Rat), w₁.model.WellFormed →
          formulateNetwork builder settings a w₁ = .ok f w₂ →
          f.table = (n.preactivations v).map (·.map .point) ∧
          (∃ b, f.body? = some b ∧ List.Forall₂ (List.Forall₂ (HiddenUnit.HasParts w₂.model)) b.hidden
            (preactivationsFrom n.hidden v)) ∧
          ∀ w₀ w : Workspace Rat, builder.Sound → solver.Exact → w₀.model.vars = [] → w₀.model.rows = [] →
            w₀.Prepared w₁ → w₂.Prepared w →
            (∀ t ∈ w.model.objective.expression.terms, t.var ∈ f.vars) →
            ∃ w', forwardPass solver f (.ok (.ofVector v)) w = .ok (.values u) w' ∧ w'.model = w.model := by
  have hlast : (n.preactivations v).getLast? = some (n.eval v) := by
    rw [n.preactivations_eq, List.getLast?_concat]
  have hbounds := boundsOfArrays_ofVector n hv hv
  rw [Interval.ofLists_self, n.intervals_point] at hbounds
  refine ⟨n.eval v, n.forward_ofVector hv, hlast, hbounds, fun builder solver settings a ha => ⟨?_, ?_⟩⟩
  · obtain ⟨r, hreq⟩ := (ha.withSettings (settings.getD .default)).exists_request
    exact ⟨r, hreq, fun hset hfit w₁ hm => ha.formulated hset hreq hfit hm⟩
  · intro f w₁ w₂ hm hbuild
    refine ⟨ha.table hbuild, ha.hasParts hm hbuild, ?_⟩
    intro w₀ w hsound hexact hvars hrows hbefore hafter hobj
    obtain ⟨hn, -, b, hready⟩ := ready_of_prepared hsound hvars hrows hbefore ha.boundsUpper ha.boundsLower
      hbuild hafter hobj
    cases hn.symm.trans ha.network
    obtain ⟨w', hpass, hw'⟩ := forwardPass_eq hexact hready (.ok (.ofVector v))
    rw [answer_of_admitted hv ha.admits] at hpass
    rcases attempt_eq_ok hpass with ⟨_, hvalues, hrun⟩ | ⟨fault, hfault⟩
    · cases hvalues
      exact ⟨w', hrun, hw'⟩
    · cases hfault

/-- Arguments for the absolute value at one number. -/
def BuildArguments.absoluteAt (q : Rat) : BuildArguments Rat :=
  { absolute "fast" with
    inputUpper := some (.ok (.ofVector [q]))
    inputLower := some (.ok (.ofVector [q])) }

/-- The absolute value at minus one half, where one of the two neurons is off. -/
theorem bounds_at_point_absolute :
    Network.absolute.boundsOfArrays (.ok (.ofVector [-1 / 2])) (.ok (.ofVector [-1 / 2])) =
        .ok [[⟨-1 / 2, -1 / 2⟩, ⟨1 / 2, 1 / 2⟩], [⟨1 / 2, 1 / 2⟩]] ∧
      ∃ (f : Formulation Rat) (w₂ w' : Workspace Rat) (b : Body),
        formulateNetwork .ideal none (.absoluteAt (-1 / 2)) (.ofModel (.empty "model")) = .ok f w₂ ∧
        f.table = [[⟨-1 / 2, -1 / 2⟩, ⟨1 / 2, 1 / 2⟩], [⟨1 / 2, 1 / 2⟩]] ∧ f.body? = some b ∧
        List.Forall₂ (List.Forall₂ (HiddenUnit.HasParts w₂.model)) b.hidden [[-1 / 2, 1 / 2]] ∧
        forwardPass .ideal f (.ok (.ofVector [-1 / 2])) w₂ = .ok (.values [1 / 2]) w' := by
  have hrun : (match formulateNetwork .ideal none (.absoluteAt (-1 / 2)) (.ofModel (.empty "model")) with
      | .ok f w₂ => decide (∀ t ∈ w₂.model.objective.expression.terms, t.var ∈ f.vars)
      | _ => false) = true := by decide +kernel
  have hvalues : Network.absolute.preactivations [-1 / 2] = [[-1 / 2, 1 / 2], [1 / 2]] := by decide +kernel
  have hhidden : preactivationsFrom Network.absolute.hidden [-1 / 2] = [[-1 / 2, 1 / 2]] := by decide +kernel
  have hmode : Mode.ofValue (.text "fast") = .ok .fast := by decide +kernel
  have hpoint : (BuildArguments.absoluteAt (-1 / 2)).AtPoint .absolute [-1 / 2] :=
    ⟨rfl, hmode, ⟨_, rfl, rfl, rfl⟩, ⟨_, rfl, rfl, rfl⟩, rfl, rfl⟩
  obtain ⟨u, -, hu, hbounds, hall⟩ := bounds_at_point .absolute [-1 / 2] rfl
  rw [hvalues] at hu hbounds hall
  rw [hhidden] at hall
  cases hu
  split at hrun
  · rename_i f w₂ hbuild
    obtain ⟨htable, ⟨b, hb, hparts⟩, hpass⟩ :=
      (hall .ideal .ideal none _ hpoint).2 f _ w₂ (Model.wellFormed_empty "model") hbuild
    obtain ⟨w', hrun', -⟩ := hpass _ w₂ exact_ideal.sound exact_ideal rfl rfl .refl .refl
      (of_decide_eq_true hrun)
    exact ⟨hbounds, f, w₂, w', b, hbuild, htable, hb, hparts, hrun'⟩
  · cases hrun

end ReluMilp
