import ReluMilp.Proofs.Assembly
import ReluMilp.Proofs.Restoring

/-!
# Attempts without an optimum

A workspace counts the attempts of a solver, so that those of a run are consecutive. A run in which none of
them ends with an optimum improves no bound.

* `Workspace.Advances` — the count does not go back, a frame that every action of a build respects, up to
  `buildHidden_advances` and `retighten_advances`;
* `Scalar.Idempotent` — numbers of which the larger and the smaller of one and itself are that one;
* `Solver.NeverOptimal` — none of some consecutive attempts ends with an optimum;
* `tightenLayer_neverOptimal`, `layerBounds_neverOptimal`, `buildHidden_intervals`, `assemble_intervals`,
  `retighten_neverOptimal` — a layer and all layers of such a run;
* `Request.build_intervals` — the table of such a build has the intervals that go through the network.
-/

namespace ReluMilp

variable {α : Type}

/-! ### The count of the attempts -/

/-- Attempts were only made, and none was taken back. -/
def Workspace.Advances (w v : Workspace α) : Prop := w.attempts ≤ v.attempts

theorem frame_advances : Workspace.Frame (Workspace.Advances (α := α)) where
  refl w := le_refl w.attempts
  trans _ _ _ h h' := h.trans h'

section Actions

variable {β : Type}

theorem solve_advances (solver : Solver α) : (Action.solve solver).Respects Workspace.Advances := by
  intro w
  unfold Action.leaves Action.solve
  cases solver w.attempts w.model with
  | ok o => exact Nat.le_succ _
  | error f => exact Nat.le_succ _

theorem update_advances (f : Model α → Except Fault (Model α × β)) :
    (Action.update f).Respects Workspace.Advances := by
  intro w
  unfold Action.leaves Action.update
  cases f w.model with
  | ok p => exact le_refl w.attempts
  | error e => exact le_refl w.attempts

theorem settle_advances : (Action.settle : Action α Unit).Respects Workspace.Advances :=
  fun w => w.settled_attempts.ge

theorem dropRows_advances (ids : List RowId) :
    (Action.dropRows ids : Action α Unit).Respects Workspace.Advances := fun w => le_refl w.attempts

theorem nextRow_advances : (nextRow : Action α RowId).Respects Workspace.Advances :=
  fun w => le_refl w.attempts

theorem bracket_advances {act : Action α β} (h : act.Respects Workspace.Advances)
    (before : Model α → Model α) (after : Model α → Model α → Model α) :
    (Action.bracket before after act).Respects Workspace.Advances := by
  intro w
  rw [Action.leaves_bracket]
  exact h (w.withModel (before w.model))

theorem onCopy_advances (copy : Model α → Except Fault (Model α)) {act : Action α β}
    (h : act.Respects Workspace.Advances) : (Action.onCopy copy act).Respects Workspace.Advances := by
  intro w
  cases hcopy : copy w.model with
  | error f =>
    rw [Action.leaves_onCopy_error hcopy]
    exact frame_advances.refl w
  | ok m =>
    rw [Action.leaves_onCopy hcopy]
    exact h ⟨m, none, false, w.attempts⟩

variable [Scalar α]

theorem stage_attempts (blocks : List (RowBlock α)) (w : Workspace α) :
    ((Action.stage blocks).leaves w).attempts = w.attempts := by
  unfold Action.leaves Action.stage
  cases w.model.addRows ((Action.taken blocks).flatMap (·.rows)) with
  | error f => rfl
  | ok p =>
    dsimp only
    split_ifs <;> rfl

theorem commit_advances (blocks : List (RowBlock α)) :
    (Action.commit blocks).Respects Workspace.Advances := by
  intro w
  have hstage := stage_attempts blocks w
  unfold Action.leaves at hstage
  unfold Action.leaves Action.commit Workspace.Advances
  cases hs : Action.stage blocks w with
  | ok ids v =>
    rw [hs] at hstage
    exact (v.settled_attempts.trans hstage).ge
  | error f v =>
    rw [hs] at hstage
    dsimp only
    split_ifs with hshort
    · exact hstage.ge
    · exact (v.settled_attempts.trans hstage).ge

omit [Scalar α] in
theorem addVector_advances (name : String) (n : Nat) (kind : VarKind) (lower upper : Limit α) :
    (addVector name n kind lower upper).Respects Workspace.Advances := update_advances _

theorem addHidden_advances (name : Value) (k : Nat) (prev : List VarId) (l : Layer α)
    (is : List (Interval α)) : (addHidden name k prev l is).Respects Workspace.Advances := by
  refine frame_advances.bind (addVector_advances _ _ _ _ _) fun xs => ?_
  refine frame_advances.bind (addVector_advances _ _ _ _ _) fun ss => ?_
  refine frame_advances.bind (addVector_advances _ _ _ _ _) fun zs => ?_
  refine frame_advances.bind nextRow_advances fun base => ?_
  exact frame_advances.bind (commit_advances _) fun _ => frame_advances.pure _

theorem replaceUnit_advances (name layer neuron : Value) (u : HiddenUnit) (b : Interval α) :
    (replaceUnit name layer neuron u b).Respects Workspace.Advances := by
  refine frame_advances.bind (dropRows_advances _) fun _ => ?_
  refine frame_advances.bind nextRow_advances fun base => ?_
  exact frame_advances.bind (commit_advances _) fun _ => frame_advances.pure _

theorem replaceUnits_advances (name : Value) (k i : Nat) (us : List HiddenUnit) (bs : List (Interval α)) :
    (replaceUnits name k i us bs).Respects Workspace.Advances := by
  induction us generalizing i bs with
  | nil => exact frame_advances.pure _
  | cons u us ih =>
    cases bs with
    | nil => exact frame_advances.pure _
    | cons b bs =>
      refine frame_advances.bind (replaceUnit_advances _ _ _ _ _) fun u' => ?_
      exact frame_advances.bind (ih (i + 1) bs) fun us' => frame_advances.pure _

end Actions

section Builds

variable [Scalar α] (solver : Solver α) (r : Request α)

theorem neuronOptima_advances (prev : List VarId) (n : Neuron α) :
    (neuronOptima solver prev n).Respects Workspace.Advances := by
  have hvalue : ∀ e maximize, (optimalValue solver e maximize).Respects Workspace.Advances := by
    intro e maximize
    refine frame_advances.bind (update_advances _) fun _ => ?_
    refine frame_advances.bind (solve_advances solver) fun o => ?_
    exact frame_advances.bind frame_advances.model fun m => frame_advances.pure _
  refine frame_advances.bind (frame_advances.ofExcept _) fun e => ?_
  refine frame_advances.bind (hvalue e true) fun upper => ?_
  exact frame_advances.bind (hvalue e false) fun lower => frame_advances.pure _

theorem tightenLayer_advances (s : Settings) (jobs : Jobs) (prev : List VarId) (l : Layer α)
    (known : List (Interval α)) : (tightenLayer solver s jobs prev l known).Respects Workspace.Advances := by
  refine frame_advances.bind ?_ fun os => frame_advances.pure _
  refine frame_advances.bind settle_advances fun _ => ?_
  cases jobs with
  | none f => exact frame_advances.throw f
  | inPlace =>
    exact bracket_advances (frame_advances.eachNeuron (neuronOptima_advances solver prev) _) _ _
  | onCopies =>
    refine frame_advances.bind frame_advances.model fun m => ?_
    refine frame_advances.bind (frame_advances.ofExcept _) fun positions => ?_
    refine frame_advances.eachNeuron (fun n => onCopy_advances _ ?_) _
    refine frame_advances.bind frame_advances.model fun m => ?_
    exact bracket_advances (neuronOptima_advances solver _ n) _ _

theorem layerBounds_advances (k : Nat) (prev : List VarId) (rectified : Bool) (before : List (Interval α))
    (l : Layer α) : (layerBounds solver r k prev rectified before l).Respects Workspace.Advances := by
  unfold layerBounds
  cases r.given with
  | some table => exact frame_advances.pure _
  | none =>
    refine frame_advances.bind (frame_advances.ofExcept _) fun is => ?_
    cases r.plan with
    | standard => exact tightenLayer_advances solver r.settings r.jobs prev l is
    | fast => exact frame_advances.pure _
    | output range => exact frame_advances.pure _

theorem buildHidden_advances (k : Nat) (prev : List VarId) (rectified : Bool) (before : List (Interval α))
    (ls : List (Layer α)) : (buildHidden solver r k prev rectified before ls).Respects Workspace.Advances := by
  induction ls generalizing k prev rectified before with
  | nil => exact frame_advances.pure _
  | cons l ls ih =>
    refine frame_advances.bind (layerBounds_advances solver r k prev rectified before l) fun is => ?_
    refine frame_advances.bind (addHidden_advances _ _ _ _ _) fun us => ?_
    exact frame_advances.bind (ih _ _ _ _) fun rest => frame_advances.pure _

theorem retighten_advances (k : Nat) (prev : List VarId) (ls : List (Layer α)) (uss : List (List HiddenUnit))
    (iss : List (List (Interval α))) :
    (retighten solver r k prev ls uss iss).Respects Workspace.Advances := by
  induction ls generalizing k prev uss iss with
  | nil => exact frame_advances.pure _
  | cons l ls ih =>
    cases uss with
    | nil => exact frame_advances.pure _
    | cons us uss =>
      cases iss with
      | nil => exact frame_advances.pure _
      | cons is iss =>
        refine frame_advances.bind (tightenLayer_advances solver r.settings r.jobs prev l is) fun js => ?_
        refine frame_advances.bind (frame_advances.ofExcept _) fun _ => ?_
        refine frame_advances.bind (replaceUnits_advances _ _ _ _ _) fun us' => ?_
        exact frame_advances.bind (ih _ _ _ _) fun p => frame_advances.pure _

end Builds

/-! ### Attempts that end without an optimum -/

/-- The larger and the smaller of a number and itself are that number. -/
class Scalar.Idempotent (α : Type) [Scalar α] : Prop where
  larger_self : ∀ a : α, larger a a = a
  smaller_self : ∀ a : α, smaller a a = a

instance : Scalar.Idempotent Rat where
  larger_self a := if_pos (le_refl a)
  smaller_self a := if_pos (le_refl a)

/-- Also an undefined number, which is smaller than none. -/
instance : Scalar.Idempotent Float where
  larger_self a := by
    show (if a.isNaN then a else if a.isNaN then a else if a < a then a else a) = a
    simp only [ite_self]
  smaller_self a := by
    show (if a.isNaN then a else if a.isNaN then a else if a < a then a else a) = a
    simp only [ite_self]

/-- None of the attempts from number `k` on and before number `k'` ends with an optimum. -/
def Solver.NeverOptimal (solver : Solver α) (k k' : Nat) : Prop :=
  ∀ (i : Nat) m o, k ≤ i → i < k' → solver i m = .ok o → o.status ≠ .optimal

theorem Solver.NeverOptimal.mono {solver : Solver α} {k k' i i' : Nat} (h : solver.NeverOptimal k k')
    (hk : k ≤ i) (hk' : i' ≤ k') : solver.NeverOptimal i i' :=
  fun j m o hj hj' => h j m o (hk.trans hj) (hj'.trans_le hk')

variable [Scalar α] {solver : Solver α} {r : Request α}

/-- Optima that no attempt reached are missing. -/
theorem Optima.ReachedAt.missing {m : Model α} {prev : List VarId} {k : Nat} {n : Neuron α} {o : Optima α}
    (h : o.ReachedAt solver m prev k n) (hs : solver.NeverOptimal k (k + 2)) : o = ⟨none, none⟩ := by
  obtain ⟨p, ⟨m₁, -, hp⟩, hupper⟩ := h.upper
  obtain ⟨q, ⟨m₂, -, hq⟩, hlower⟩ := h.lower
  rw [optimum?_of_ne_optimal (hs k m₁ p le_rfl (by omega) hp)] at hupper
  rw [optimum?_of_ne_optimal (hs (k + 1) m₂ q (by omega) (by omega) hq)] at hlower
  cases o
  cases hupper
  cases hlower
  rfl

/-- The problems of a layer are two attempts for every neuron, so that without an optimum none is known. -/
theorem layerOptima_neverOptimal {s : Settings} {jobs : Jobs} {prev : List VarId} {ns : List (Neuron α)}
    {os : List (Optima α)} {w w' : Workspace α} (hs : solver.NeverOptimal w.attempts w'.attempts)
    (h : layerOptima solver s jobs prev (ns.map .ok) w = .ok os w') :
    os = List.replicate ns.length ⟨none, none⟩ := by
  obtain ⟨-, hcount, hlen, hos⟩ := layerOptima_reachedAt h
  rw [hcount] at hs
  refine List.eq_replicate_iff.2 ⟨hlen, fun o ho => ?_⟩
  obtain ⟨j, hj, rfl⟩ := List.mem_iff_getElem.1 ho
  have hj' : j < ns.length := hlen ▸ hj
  have hat := hos j _ _ (List.getElem?_eq_getElem hj') (List.getElem?_eq_getElem hj)
  exact hat.missing (hs.mono (by omega) (by omega))

variable [Scalar.Idempotent α]

theorem improveAll_missing (known : List (Interval α)) {n : Nat} (h : known.length = n) :
    improveAll known (List.replicate n ⟨none, none⟩) = known := by
  induction known generalizing n with
  | nil => exact List.zipWith_nil_left
  | cons i known ih =>
    subst h
    have hhead : i.improve none none = i :=
      congrArg₂ Interval.mk (Scalar.Idempotent.smaller_self i.upper) (Scalar.Idempotent.larger_self i.lower)
    have htail := ih rfl
    unfold improveAll at htail ⊢
    rw [List.length_cons, List.replicate_succ, List.zipWith_cons_cons, htail, hhead]

/-- A layer keeps the bounds that are known. -/
theorem tightenLayer_neverOptimal {s : Settings} {jobs : Jobs} {prev : List VarId} {l : Layer α}
    {known is : List (Interval α)} {w w' : Workspace α} (hlen : known.length = l.outputs)
    (hs : solver.NeverOptimal w.attempts w'.attempts)
    (h : tightenLayer solver s jobs prev l known w = .ok is w') : is = known := by
  obtain ⟨os, w₁, hos, h⟩ := Action.bind_eq_ok.1 h
  obtain ⟨rfl, rfl⟩ := Action.pure_eq_ok.1 h
  rw [layerOptima_neverOptimal hs hos]
  exact improveAll_missing known hlen

/-- The bounds of a layer are those that follow from the layer before. Without optimisation, no attempt
matters. -/
theorem layerBounds_neverOptimal {k : Nat} {prev : List VarId} {rectified : Bool}
    {before is : List (Interval α)} {l : Layer α} {w w' : Workspace α} (hgiven : r.given = none)
    (hs : r.plan = .standard → solver.NeverOptimal w.attempts w'.attempts)
    (h : layerBounds solver r k prev rectified before l w = .ok is w') :
    is = l.intervals rectified before := by
  by_cases hplan : r.plan = .standard
  · unfold layerBounds at h
    rw [hgiven, hplan] at h
    obtain ⟨js, v, hstep, h⟩ := Action.bind_eq_ok.1 h
    obtain ⟨hjs, rfl⟩ := Action.ofExcept_eq_ok.1 hstep
    obtain ⟨-, rfl⟩ := Layer.propagate_eq_ok hjs
    exact tightenLayer_neverOptimal (l.length_intervals rectified before) (hs hplan) h
  · exact layerBounds_intervals hgiven hplan h

/-- The bounds of hidden layers are the intervals that go through them. -/
theorem buildHidden_intervals {k : Nat} {prev : List VarId} {rectified : Bool}
    {before : List (Interval α)} {ls : List (Layer α)} {stem : Stem α} {w w' : Workspace α}
    (hgiven : r.given = none) (hs : r.plan = .standard → solver.NeverOptimal w.attempts w'.attempts)
    (h : buildHidden solver r k prev rectified before ls w = .ok stem w') (ls' : List (Layer α)) :
    intervalsFrom rectified before (ls ++ ls') =
      stem.table ++ intervalsFrom stem.rectified stem.bounds ls' := by
  induction ls generalizing k prev rectified before stem w with
  | nil =>
    obtain ⟨rfl, rfl⟩ := Action.pure_eq_ok.1 h
    rfl
  | cons l ls ih =>
    obtain ⟨is, us, rest, w₁, w₂, his, hus, hrest, rfl⟩ := buildHidden_cons h
    have hfirst := (layerBounds_advances solver r k prev rectified before l).of_eq_ok his
    have hunits := (addHidden_advances r.name k prev l is).of_eq_ok hus
    have hlater := (buildHidden_advances solver r _ _ _ _ _).of_eq_ok hrest
    have heq := layerBounds_neverOptimal hgiven
      (fun hplan => (hs hplan).mono le_rfl (hunits.trans hlater)) his
    have htail := ih (fun hplan => (hs hplan).mono (hfirst.trans hunits) le_rfl) hrest
    rw [heq] at htail
    show l.intervals rectified before :: intervalsFrom true (l.intervals rectified before) (ls ++ ls') = _
    rw [htail, heq]
    rfl

/-- An assembly has the intervals that go through the network. -/
theorem assemble_intervals {s : Assembled α} {w w' : Workspace α} (hgiven : r.given = none)
    (hs : r.plan = .standard → solver.NeverOptimal w.attempts w'.attempts)
    (h : r.assemble solver w = .ok s w') :
    w.attempts ≤ w'.attempts ∧ r.network.intervals r.box = s.table ++ [s.bounds] := by
  obtain ⟨inputs, v₁, hinputs, h⟩ := Action.bind_eq_ok.1 h
  obtain ⟨inputRows, v₂, hbox, h⟩ := Action.bind_eq_ok.1 h
  obtain ⟨stem, v₃, hstem, h⟩ := Action.bind_eq_ok.1 h
  obtain ⟨is, v₄, his, h⟩ := Action.bind_eq_ok.1 h
  obtain ⟨outputs, v₅, houtputs, h⟩ := Action.bind_eq_ok.1 h
  obtain ⟨rows, v₆, hrows, h⟩ := Action.bind_eq_ok.1 h
  obtain ⟨rfl, rfl⟩ := Action.pure_eq_ok.1 h
  have hfront : w.attempts ≤ v₂.attempts :=
    ((addVector_advances _ _ _ _ _).of_eq_ok hinputs).trans ((commit_advances _).of_eq_ok hbox)
  have hhidden := (buildHidden_advances solver r _ _ _ _ _).of_eq_ok hstem
  have hlast := (layerBounds_advances solver r _ _ _ _ _).of_eq_ok his
  have hback : v₄.attempts ≤ v₆.attempts :=
    ((addVector_advances _ _ _ _ _).of_eq_ok houtputs).trans ((commit_advances _).of_eq_ok hrows)
  have heq := layerBounds_neverOptimal hgiven
    (fun hplan => (hs hplan).mono (hfront.trans hhidden) hback) his
  have hall := buildHidden_intervals hgiven
    (fun hplan => (hs hplan).mono hfront (hlast.trans hback)) hstem [r.network.output]
  refine ⟨(hfront.trans hhidden).trans (hlast.trans hback), hall.trans ?_⟩
  rw [heq]
  rfl

/-- Hidden layers that are bounded again keep their bounds. -/
theorem retighten_neverOptimal {k : Nat} {prev : List VarId} {ls : List (Layer α)}
    {uss uss' : List (List HiddenUnit)} {iss iss' : List (List (Interval α))} {w w' : Workspace α}
    (hlen : iss.map List.length = ls.map (·.outputs)) (hs : solver.NeverOptimal w.attempts w'.attempts)
    (h : retighten solver r k prev ls uss iss w = .ok (uss', iss') w') : iss' = iss := by
  induction ls generalizing k prev uss uss' iss iss' w with
  | nil =>
    obtain ⟨heq, -⟩ := Action.pure_eq_ok.1 h
    cases heq
    rfl
  | cons l ls ih =>
    cases iss with
    | nil => cases hlen
    | cons is iss =>
    cases uss with
    | nil =>
      obtain ⟨heq, -⟩ := Action.pure_eq_ok.1 h
      cases heq
      rfl
    | cons us uss =>
      obtain ⟨hwidth, hlen⟩ := List.cons.inj hlen
      obtain ⟨js, w₁, us', w₂, uss₂, iss₂, htighten, -, hunits, hlater, heq⟩ := retighten_eq_ok.1 h
      cases heq
      have hfirst := (tightenLayer_advances solver r.settings r.jobs prev l is).of_eq_ok htighten
      have hswaps := (replaceUnits_advances r.name k 0 us js).of_eq_ok hunits
      have hrest := (retighten_advances solver r _ _ _ _ _).of_eq_ok hlater
      rw [tightenLayer_neverOptimal hwidth (hs.mono le_rfl (hswaps.trans hrest)) htighten,
        ih hlen (hs.mono (hfirst.trans hswaps) le_rfl) hlater]

/-- The bounds of the last layer in a table: those of the output, if a plan has any. -/
def Plan.lastBounds (p : Plan α) (is : List (Interval α)) : List (Interval α) :=
  match p with
  | .output range => range
  | _ => is

/-- Without an optimum, a build stores the intervals that go through the network; bounds of the output take
the last place. -/
theorem Request.build_intervals {f : Formulation α} {w w' : Workspace α} (hgiven : r.given = none)
    (hs : r.plan ≠ .fast → solver.NeverOptimal w.attempts w'.attempts) (h : r.build solver w = .ok f w') :
    ∃ hidden last, r.network.intervals r.box = hidden ++ [last] ∧
      f.table = hidden ++ [r.plan.lastBounds last] := by
  rw [r.build_eq] at h
  obtain ⟨s, w₁, hass, h⟩ := Action.bind_eq_ok.1 h
  unfold Request.finish at h
  cases hp : r.plan with
  | fast =>
    rw [hp] at h
    obtain ⟨rfl, rfl⟩ := Action.pure_eq_ok.1 h
    have hall := (assemble_intervals hgiven (fun hplan => nomatch hp.symm.trans hplan) hass).2
    exact ⟨s.table, s.bounds, hall, rfl⟩
  | standard =>
    rw [hp] at h
    obtain ⟨rfl, rfl⟩ := Action.pure_eq_ok.1 h
    have hall := (assemble_intervals hgiven (fun _ => hs fun hplan => nomatch hp.symm.trans hplan) hass).2
    exact ⟨s.table, s.bounds, hall, rfl⟩
  | output range =>
    rw [hp] at h
    obtain ⟨⟨units, table⟩, v, hre, h⟩ := Action.bind_eq_ok.1 h
    obtain ⟨rfl, rfl⟩ := Action.pure_eq_ok.1 h
    obtain ⟨hfirst, hall⟩ := assemble_intervals hgiven (fun hplan => nomatch hp.symm.trans hplan) hass
    have hwidths : s.table.map List.length = r.network.hidden.map (·.outputs) := by
      have hlen := r.network.length_intervals r.box
      rw [hall, List.map_append] at hlen
      unfold Network.neuronCount Network.layers at hlen
      rw [List.map_append] at hlen
      exact (List.append_inj' hlen rfl).1
    have hnever := (hs fun hplan => nomatch hp.symm.trans hplan).mono hfirst le_rfl
    rw [retighten_neverOptimal hwidths hnever hre]
    exact ⟨s.table, s.bounds, hall, rfl⟩

end ReluMilp
