import ReluMilp.Proofs.Retightening

/-!
# When a network is formulated

Where every solve ends, a build fails at a name, at the jobs or at the parameters only.

* `addVector_succeeds`, `commit_succeeds` — additions with names that fit;
* `neuronOptima_succeeds`, `layerOptima_succeeds` — optima in place and on copies of the model;
* `Settings.Accepted`, `Model.HasVars` — what an optimisation needs: parameters that are taken, variables
  that are in the model; `Settings.inForce` — the parameters that are then in force;
* `buildHidden_succeeds`, `replaceUnits_succeeds`, `retighten_succeeds` — hidden layers that are built, and
  bounded again;
* `Request.Solvable`, `Request.NamesFit`, `Request.build_succeeds` — requests that are built;
  `NamesFit.congr`, the names of a request are those of its network;
* `formulateNetwork_eq`, `formulateNetwork_succeeds` — arguments of which a network is formulated.
-/

namespace ReluMilp

open Scalar

/-! ### Additions -/

theorem addVector_succeeds {name : String} {n : Nat}
    (h : ∀ t ∈ elementNames name n, RowDraft.nameFits t = true) (kind : VarKind) (lower upper : Limit Rat)
    (w : Workspace Rat) : ∃ ids w', addVector name n kind lower upper w = .ok ids w' :=
  ⟨_, _, Action.update_eq_ok.2 ⟨_, if_pos (List.all_eq_true.2 h), rfl⟩⟩

theorem finiteTerms_rat (ts : List (Term Rat)) : finiteTerms ts = true := List.all_eq_true.2 fun _ _ => rfl

theorem commit_succeeds {blocks : List (RowBlock Rat)}
    (h : ∀ d ∈ blocks.flatMap (·.rows), RowDraft.nameFits d.name = true) (w : Workspace Rat) :
    ∃ ids w', Action.commit blocks w = .ok ids w' := by
  refine Action.exists_of_succeeds ?_
  rw [Action.succeeds_commit]
  unfold Action.accepts
  rw [Bool.and_eq_true]
  constructor
  · refine List.all_eq_true.2 fun b _ => ?_
    rw [List.all_eq_true.2 fun d _ => finiteTerms_rat d.terms, Bool.or_true]
  · refine List.all_eq_true.2 fun d hd => ?_
    show (RowDraft.nameFits d.name && finiteTerms d.terms && true) = true
    rw [h d hd, finiteTerms_rat]
    rfl

/-! ### Optima -/

section Optima

variable {solver : Solver Rat} {s : Settings} {jobs : Jobs} {prev : List VarId} {ns : List (Neuron Rat)}
  {w : Workspace Rat}

theorem solve_succeeds (hs : solver.Total) (w : Workspace Rat) :
    ∃ o w', Action.solve solver w = .ok o w' := by
  obtain ⟨o, ho⟩ := hs w.attempts w.model
  unfold Action.solve
  rw [ho]
  exact ⟨_, _, rfl⟩

theorem aim_succeeds (e : Linear Rat) (maximize : Bool) (w : Workspace Rat) :
    ∃ u w', aim e maximize w = .ok u w' := by
  unfold aim Action.update Model.setObjective
  rw [finiteTerms_rat]
  exact ⟨_, _, rfl⟩

theorem optimalValue_succeeds (hs : solver.Total) (e : Linear Rat) (maximize : Bool) (w : Workspace Rat) :
    ∃ o w', optimalValue solver e maximize w = .ok o w' := by
  refine Action.bind_succeeds (aim_succeeds e maximize w) fun _ w₁ _ => ?_
  refine Action.bind_succeeds (solve_succeeds hs w₁) fun r w₂ _ => ?_
  exact Action.bind_succeeds ⟨_, _, rfl⟩ fun m w₃ _ => Action.pure_succeeds _ w₃

theorem neuronOptima_succeeds (hs : solver.Total) {n : Neuron Rat} (hlen : n.weights.length = prev.length)
    (w : Workspace Rat) : ∃ o w', neuronOptima solver prev n w = .ok o w' := by
  have hexp : n.expression prev = .ok ⟨weightTerms n.weights prev, n.bias⟩ := if_pos hlen
  refine Action.bind_succeeds (Action.ofExcept_succeeds hexp w) fun e w₁ _ => ?_
  refine Action.bind_succeeds (optimalValue_succeeds hs e true w₁) fun upper w₂ _ => ?_
  exact Action.bind_succeeds (optimalValue_succeeds hs e false w₂) fun lower w₃ _ => Action.pure_succeeds _ w₃

theorem subproblem_succeeds {β : Type} {relax : Bool} {act : Action Rat β}
    (h : ∀ v, ∃ b v', act v = .ok b v') (w : Workspace Rat) :
    ∃ b w', subproblem relax act w = .ok b w' := by
  unfold subproblem Action.bracket
  obtain ⟨b, v, hact⟩ := h (w.withModel (if relax then w.model.relaxed else w.model))
  rw [hact]
  exact ⟨_, _, rfl⟩

/-- An action on every neuron that keeps what it needs of the model. -/
theorem eachNeuron_succeeds {β : Type} {act : Neuron Rat → Action Rat β} {I : Model Rat → Prop}
    (step : ∀ n ∈ ns, ∀ v, I v.model → ∃ b v', act n v = .ok b v' ∧ I v'.model) (hw : I w.model) :
    ∃ bs w', eachNeuron act (ns.map .ok) w = .ok bs w' := by
  induction ns generalizing w with
  | nil => exact ⟨[], w, rfl⟩
  | cons n ns ih =>
    obtain ⟨b, w₁, hact, hw₁⟩ := step n List.mem_cons_self w hw
    obtain ⟨bs, w₂, hrest⟩ := ih (fun n' hn' => step n' (List.mem_cons_of_mem n hn')) hw₁
    refine ⟨b :: bs, w₂, ?_⟩
    show (act n >>= fun r => eachNeuron act (ns.map .ok) >>= fun rs => pure (r :: rs)) w = _
    rw [Action.bind_of_eq_ok hact, Action.bind_of_eq_ok hrest]
    rfl

/-- The threads of settings are no more than a model takes. -/
def Settings.Accepted (s : Settings) : Prop := s.threads.toNat ≤ Parameters.maxThreads

instance (s : Settings) : Decidable s.Accepted := inferInstanceAs (Decidable (_ ≤ _))

/-- The parameters in force once settings were set over others: without a time limit of their own, the one
that was there stays. -/
def Settings.inForce (s : Settings) (p : Parameters) : Parameters :=
  ⟨!s.silent, s.threads.toNat, if 0 < s.timeLimit then Scalar.clip s.timeLimit else p.timeLimit⟩

theorem Settings.Accepted.setAll (h : s.Accepted) (p : Parameters) :
    p.setAll s.changes = (s.inForce p, none) := by
  have hthreads : ∀ q : Parameters, q.set (.threads s.threads.toNat) =
      .ok { q with threads := s.threads.toNat } := fun q => if_pos h
  unfold Settings.changes Settings.inForce
  split
  · simp only [List.cons_append, List.nil_append, Parameters.setAll, hthreads]
    rfl
  · simp only [List.append_nil, Parameters.setAll, hthreads]
    rfl

theorem Settings.Accepted.changeParameters {α : Type} (h : s.Accepted) (w : Workspace α) :
    Action.changeParameters s.changes w =
      .ok () { w with model := { w.model with parameters := s.inForce w.model.parameters } } := by
  unfold Action.changeParameters
  rw [h.setAll]

/-- Settings with too many threads are refused. -/
theorem Settings.setAll_refused (h : ¬s.Accepted) (p : Parameters) :
    p.setAll s.changes = ({ p with output := !s.silent },
      some (if s.threads.toNat < Parameters.threadRange then .refused else .overflow)) := by
  have hthreads : ∀ q : Parameters, q.set (.threads s.threads.toNat) =
      .error (if s.threads.toNat < Parameters.threadRange then .refused else .overflow) :=
    fun q => if_neg h
  unfold Settings.changes
  rw [List.cons_append, List.cons_append, Parameters.setAll]
  dsimp only [Parameters.set]
  rw [Parameters.setAll, hthreads]

theorem Settings.accepted_of_setAll {p q : Parameters} (h : p.setAll s.changes = (q, none)) :
    s.Accepted := by
  by_contra hnot
  rw [setAll_refused hnot] at h
  cases h

theorem Settings.accepted_of_changeParameters {u : Unit} {w' : Workspace Rat}
    (h : Action.changeParameters s.changes w = .ok u w') : s.Accepted := by
  unfold Action.changeParameters at h
  dsimp only at h
  split at h
  · rename_i hnone
    exact accepted_of_setAll (Prod.ext rfl hnone : w.model.parameters.setAll s.changes = (_, none))
  · cases h

theorem copyUnder_succeeds (h : s.Accepted) (m : Model Rat) : ∃ m', copyUnder s m = .ok m' := by
  unfold copyUnder
  rw [h.setAll]
  exact ⟨_, rfl⟩

/-- Variables are in a model. -/
def Model.HasVars (m : Model Rat) (ids : List VarId) : Prop := ∀ id ∈ ids, ∃ v ∈ m.vars, v.id = id

theorem positions_succeed {m : Model Rat} {ids : List VarId} (h : m.HasVars ids) :
    ∃ ks, m.positions ids = .ok ks := by
  unfold Model.positions
  induction ids with
  | nil => exact ⟨[], rfl⟩
  | cons id ids ih =>
    obtain ⟨ks, hks⟩ := ih fun i hi => h i (List.mem_cons_of_mem id hi)
    obtain ⟨v, hv, hid⟩ := h id List.mem_cons_self
    have hfind : (m.vars.findIdx? (·.id = id)).isSome = true := by
      rw [List.findIdx?_isSome, List.any_eq_true]
      exact ⟨v, hv, decide_eq_true hid⟩
    obtain ⟨k, hk⟩ := Option.isSome_iff_exists.1 hfind
    refine ⟨k :: ks, ?_⟩
    rw [List.mapM_cons, hk, hks]
    rfl

/-- The optima of a layer that reads variables of the model, one per weight. -/
theorem layerOptima_succeeds (hs : solver.Total) (hset : jobs = .onCopies → s.Accepted)
    (hjobs : ∀ f, jobs ≠ .none f) (hprev : w.model.HasVars prev)
    (hlen : ∀ n ∈ ns, n.weights.length = prev.length) :
    ∃ os w', layerOptima solver s jobs prev (ns.map .ok) w = .ok os w' := by
  refine Action.bind_succeeds ⟨(), w.settled, rfl⟩ fun _ w₁ hw₁ => ?_
  have hm₁ : w₁.model = w.model := by rw [Action.settle_eq_ok.1 hw₁, Workspace.settled_model]
  cases jobs with
  | none f => exact absurd rfl (hjobs f)
  | inPlace =>
    refine subproblem_succeeds (fun v => ?_) w₁
    refine eachNeuron_succeeds (I := fun _ => True) (fun n hn v' _ => ?_) trivial
    obtain ⟨o, v'', ho⟩ := neuronOptima_succeeds hs (hlen n hn) v'
    exact ⟨o, v'', ho, trivial⟩
  | onCopies =>
    rw [← hm₁] at hprev
    obtain ⟨ks, hks⟩ := positions_succeed hprev
    refine Action.bind_succeeds ⟨_, _, rfl⟩ fun m w₂ hm => ?_
    obtain ⟨rfl, rfl⟩ := Action.model_eq_ok.1 hm
    refine Action.bind_succeeds (Action.ofExcept_succeeds hks w₁) fun ks' w₂ hpos => ?_
    obtain ⟨hks', rfl⟩ := Action.ofExcept_eq_ok.1 hpos
    refine eachNeuron_succeeds (I := fun m => m = w₁.model) (fun n hn v hv => ?_) rfl
    obtain ⟨c, hc⟩ := copyUnder_succeeds (hset rfl) v.model
    have hread : c.atPositions ks' = prev := by
      rw [copyUnder_eq_ok hc, hv]
      exact atPositions_positions hks'
    obtain ⟨o, v', ho⟩ : ∃ o v', subproblem s.relax (neuronOptima solver prev n)
        ⟨c, none, false, v.attempts⟩ = .ok o v' :=
      subproblem_succeeds (neuronOptima_succeeds hs (hlen n hn)) _
    refine ⟨o, { v with attempts := v'.attempts }, ?_, hv⟩
    unfold optimaOnCopy Action.onCopy
    rw [hc]
    dsimp only
    rw [Action.bind_of_eq_ok (Action.model_eq_ok.2 ⟨rfl, rfl⟩), hread, ho]

theorem tightenLayer_succeeds {l : Layer Rat} (hs : solver.Total) (hset : jobs = .onCopies → s.Accepted)
    (hjobs : ∀ f, jobs ≠ .none f) (hprev : w.model.HasVars prev) (hlen : l.inputs = prev.length)
    (known : List (Interval Rat)) : ∃ is w', tightenLayer solver s jobs prev l known w = .ok is w' := by
  have hwidths : ∀ n ∈ l.neurons, n.weights.length = prev.length := fun n hn => (l.conform n hn).trans hlen
  exact Action.bind_succeeds (layerOptima_succeeds hs hset hjobs hprev hwidths) fun _ w₁ _ =>
    Action.pure_succeeds _ w₁

end Optima

/-! ### Names -/

/-- The names of the elements of a vector fit. -/
def VectorFits (name : String) (n : Nat) : Prop := ∀ t ∈ elementNames name n, RowDraft.nameFits t = true

/-- The names of the rows with a binary variable of neuron `i` in layer `k` fit. -/
def UnitFits (name : Value) (k i : Nat) : Prop :=
  RowDraft.nameFits (unitRowName name "relu_ub" (indexValue k) (indexValue i)) = true ∧
    RowDraft.nameFits (unitRowName name "relu_lb" (indexValue k) (indexValue i)) = true

instance (name : String) (n : Nat) : Decidable (VectorFits name n) :=
  inferInstanceAs (Decidable (∀ t ∈ elementNames name n, RowDraft.nameFits t = true))

instance (name : Value) (k i : Nat) : Decidable (UnitFits name k i) :=
  inferInstanceAs (Decidable (_ ∧ _))

/-- The names of everything in hidden layer `k` fit. -/
structure LayerFits (name : Value) (k n : Nat) : Prop where
  vectors : ∀ part ∈ ["x", "s", "z", "mix"], VectorFits (layerName name part k) n
  units : ∀ i < n, UnitFits name k i

instance (name : Value) (k n : Nat) : Decidable (LayerFits name k n) :=
  decidable_of_iff ((∀ part ∈ ["x", "s", "z", "mix"], VectorFits (layerName name part k) n) ∧
    ∀ i < n, UnitFits name k i) ⟨fun h => ⟨h.1, h.2⟩, fun h => ⟨h.1, h.2⟩⟩

/-- The names of everything in the hidden layers from number `k` on fit. -/
def HiddenFits (name : Value) : Nat → List (Layer Rat) → Prop
  | _, [] => True
  | k, l :: ls => LayerFits name k l.outputs ∧ HiddenFits name (k + 1) ls

instance HiddenFits.decidable (name : Value) : ∀ k ls, Decidable (HiddenFits name k ls)
  | _, [] => .isTrue trivial
  | k, l :: ls =>
    have := HiddenFits.decidable name (k + 1) ls
    inferInstanceAs (Decidable (LayerFits name k l.outputs ∧ HiddenFits name (k + 1) ls))

theorem name_boundDrafts {t : String} {sense : Sense} {xs : List VarId} {bs : List Rat} {d : RowDraft Rat}
    (h : d ∈ boundDrafts t sense xs bs) : d.name ∈ elementNames t xs.length := by
  unfold boundDrafts at h
  obtain ⟨i, hi⟩ := List.mem_iff_getElem?.1 h
  obtain ⟨e, p, he, -, rfl⟩ := List.getElem?_zipWith_eq_some.1 hi
  exact List.mem_of_getElem? he

theorem name_outputDrafts {t : String} {xs prev : List VarId} {l : Layer Rat} {d : RowDraft Rat}
    (h : d ∈ outputDrafts t xs l prev) : d.name ∈ elementNames t l.outputs := by
  unfold outputDrafts at h
  obtain ⟨i, hi⟩ := List.mem_iff_getElem?.1 h
  obtain ⟨e, p, he, -, rfl⟩ := List.getElem?_zipWith_eq_some.1 hi
  exact List.mem_of_getElem? he

theorem name_layerDrafts {t : String} {xs ss prev : List VarId} {l : Layer Rat} {d : RowDraft Rat}
    (h : d ∈ layerDrafts t xs ss l prev) : d.name ∈ elementNames t l.outputs := by
  unfold layerDrafts at h
  obtain ⟨i, hi⟩ := List.mem_iff_getElem?.1 h
  obtain ⟨e, p, he, -, rfl⟩ := List.getElem?_zipWith_eq_some.1 hi
  exact List.mem_of_getElem? he

theorem nameFits_pairDrafts {name : Value} {k : Nat} {xs ss zs : List VarId} {is : List (Interval Rat)}
    {d : RowDraft Rat} (hfit : ∀ i < xs.length, UnitFits name k i) (h : d ∈ pairDrafts name k xs ss zs is) :
    RowDraft.nameFits d.name = true := by
  obtain ⟨ds, hds, hd⟩ := List.mem_flatten.1 h
  obtain ⟨i, p, hp, rfl⟩ := mem_number.1 hds
  have hi : i < xs.length := by
    have hlt := (List.getElem?_eq_some_iff.1 hp).1
    rw [List.length_zip, List.length_zip] at hlt
    exact hlt.trans_le ((min_le_left _ _).trans (min_le_left _ _))
  obtain ⟨hu, hl⟩ := hfit i hi
  rw [Nat.zero_add] at hd
  rcases List.mem_pair.1 hd with rfl | rfl
  · exact hu
  · exact hl

/-! ### Layers -/

section Layers

variable {solver : Solver Rat} {r : Request Rat} {prev : List VarId} {w w' : Workspace Rat}

/-- What the layers of a build need beyond their names. -/
structure Request.Solvable (solver : Solver Rat) (r : Request Rat) : Prop where
  total : solver.Total
  settings : r.settings.Accepted
  jobs : ∀ f, r.jobs ≠ .none f

theorem layerBounds_succeeds {k : Nat} {rectified : Bool} {before : List (Interval Rat)} {l : Layer Rat}
    (hs : r.Solvable solver) (hprev : w.model.HasVars prev) (hlen : l.inputs = prev.length)
    (hbefore : before.length = l.inputs) :
    ∃ is w', layerBounds solver r k prev rectified before l w = .ok is w' := by
  unfold layerBounds
  cases r.given with
  | some table => exact ⟨_, _, rfl⟩
  | none =>
    refine Action.bind_succeeds (Action.ofExcept_succeeds (if_pos hbefore) w) fun is v hv => ?_
    obtain ⟨-, rfl⟩ := Action.ofExcept_eq_ok.1 hv
    cases r.plan with
    | fast => exact ⟨_, _, rfl⟩
    | output range => exact ⟨_, _, rfl⟩
    | standard => exact tightenLayer_succeeds hs.total (fun _ => hs.settings) hs.jobs hprev hlen _

theorem addHidden_succeeds {name : Value} {k : Nat} {l : Layer Rat} {is : List (Interval Rat)}
    (hfit : LayerFits name k l.outputs) (w : Workspace Rat) :
    ∃ us w', addHidden name k prev l is w = .ok us w' := by
  refine Action.bind_succeeds (addVector_succeeds (hfit.vectors "x" (by simp)) _ _ _ w) fun xs w₁ h₁ => ?_
  refine Action.bind_succeeds (addVector_succeeds (hfit.vectors "s" (by simp)) _ _ _ w₁) fun ss w₂ _ => ?_
  refine Action.bind_succeeds (addVector_succeeds (hfit.vectors "z" (by simp)) _ _ _ w₂) fun zs w₃ _ => ?_
  refine Action.bind_succeeds ⟨_, _, rfl⟩ fun base w₄ _ => ?_
  have hxs : xs.length = l.outputs := by rw [(addVector_eq_ok h₁).2, List.length_range']
  have hnames : ∀ d ∈ (layerBigMBlocks name k xs ss zs is ++
      [(⟨true, layerDrafts (layerName name "mix" k) xs ss l prev⟩ : RowBlock Rat)]).flatMap (·.rows),
      RowDraft.nameFits d.name = true := by
    intro d hd
    rw [flatMap_rows_layer] at hd
    rcases List.mem_append.1 hd with hd | hd
    · exact nameFits_pairDrafts (fun i hi => hfit.units i (hxs ▸ hi)) hd
    · exact hfit.vectors "mix" (by simp) _ (name_layerDrafts hd)
  exact Action.bind_succeeds (commit_succeeds hnames w₄) fun _ w₅ _ => Action.pure_succeeds _ w₅

theorem HiddenUnit.Stands.hasVars {m : Model Rat} {ns : List (Neuron Rat)} {us : List HiddenUnit}
    {is : List (Interval Rat)} (h : Forall₃ (HiddenUnit.Stands m prev) ns us is) :
    m.HasVars (us.map (·.x)) := by
  intro id hid
  obtain ⟨u, hu, rfl⟩ := List.mem_map.1 hid
  obtain ⟨n, i, hst⟩ := h.exists_of_mem hu
  obtain ⟨name, hv⟩ := hst.value
  exact ⟨_, hv, rfl⟩

/-- Hidden layers with names that fit are built, and the next layer reads variables of the model. -/
theorem buildHidden_succeeds {k : Nat} {rectified : Bool} {before : List (Interval Rat)}
    {ls : List (Layer Rat)} {out : Layer Rat} (hs : r.Solvable solver) (hr : r.Fits k ls)
    (hchain : Chained (ls ++ [out])) (hfit : HiddenFits r.name (k + 1) ls) (hm : w.model.WellFormed)
    (hprev : w.model.HasVars prev) (hlen : (ls.head?.getD out).inputs = prev.length)
    (hbefore : before.length = prev.length) :
    ∃ stem w', buildHidden solver r (k + 1) prev rectified before ls w = .ok stem w' ∧
      w'.model.HasVars stem.last ∧ out.inputs = stem.last.length ∧
      stem.bounds.length = stem.last.length := by
  induction ls generalizing k prev rectified before w with
  | nil => exact ⟨_, _, rfl, hprev, hlen, hbefore⟩
  | cons l ls ih =>
    obtain ⟨is, w₁, his⟩ : ∃ is w₁, layerBounds solver r (k + 1) prev rectified before l w = .ok is w₁ :=
      layerBounds_succeeds hs hprev hlen (hbefore.trans hlen.symm)
    obtain ⟨us, w₂, hus⟩ : ∃ us w₂, addHidden r.name (k + 1) prev l is w₁ = .ok us w₂ :=
      addHidden_succeeds hfit.1 w₁
    have hm₁ := (layerBounds_eq_ok his).1
    have hlt : ∀ id ∈ prev, id < w₁.model.nextVar := by
      intro id hid
      obtain ⟨v, hv, rfl⟩ := hprev id hid
      rw [hm₁]
      exact hm.vars_lt v hv
    have his_length := length_layerBounds hr his
    have hlayer := addHidden_added hlt his_length hus
    rw [hm₁] at hlayer
    obtain ⟨hchain', hhead⟩ := hchain.tail
    have hwidth : (us.map (·.x)).length = l.outputs := by
      rw [List.length_map, hlayer.stands.length_middle]
      rfl
    obtain ⟨stem, w', hrest, hlast⟩ : ∃ stem w',
        buildHidden solver r (k + 1 + 1) (us.map (·.x)) true is ls w₂ = .ok stem w' ∧
          w'.model.HasVars stem.last ∧ out.inputs = stem.last.length ∧
          stem.bounds.length = stem.last.length :=
      ih hr.tail hchain' hfit.2 (hlayer.adds.wellFormed hm) (HiddenUnit.Stands.hasVars hlayer.stands)
        (hhead.trans hwidth.symm) (his_length.trans hwidth.symm)
    refine ⟨{ stem with units := us :: stem.units, table := is :: stem.table }, w', ?_, hlast⟩
    unfold buildHidden
    rw [Action.bind_of_eq_ok his, Action.bind_of_eq_ok hus, Action.bind_of_eq_ok hrest]
    rfl

/-! ### Layers that are bounded again -/

theorem replaceUnit_succeeds {name : Value} {k i : Nat} (hfit : UnitFits name k i) (u : HiddenUnit)
    (j : Interval Rat) (w : Workspace Rat) :
    ∃ u' w', replaceUnit name (indexValue k) (indexValue i) u j w = .ok u' w' := by
  have hnames : ∀ d ∈ (bigMBlocks name (indexValue k) (indexValue i) u.x u.s u.z j).flatMap (·.rows),
      RowDraft.nameFits d.name = true := by
    intro d hd
    rcases List.mem_pair.1 hd with rfl | rfl
    · exact hfit.1
    · exact hfit.2
  refine Action.bind_succeeds ⟨_, _, rfl⟩ fun _ w₁ _ => ?_
  refine Action.bind_succeeds ⟨_, _, rfl⟩ fun base w₂ _ => ?_
  exact Action.bind_succeeds (commit_succeeds hnames w₂) fun _ w₃ _ => Action.pure_succeeds _ w₃

theorem replaceUnits_succeeds {name : Value} {k i : Nat} {us : List HiddenUnit}
    (hfit : ∀ j, j < i + us.length → UnitFits name k j) (js : List (Interval Rat)) (w : Workspace Rat) :
    ∃ us' w', replaceUnits name k i us js w = .ok us' w' := by
  induction us generalizing i js w with
  | nil => exact ⟨_, _, rfl⟩
  | cons u us ih =>
    cases js with
    | nil => exact ⟨_, _, rfl⟩
    | cons j js =>
      rw [List.length_cons] at hfit
      have hrest : ∀ j, j < i + 1 + us.length → UnitFits name k j := fun j hj => hfit j (by omega)
      refine Action.bind_succeeds (replaceUnit_succeeds (hfit i (by omega)) u j w) fun u' w₁ _ => ?_
      exact Action.bind_succeeds (ih hrest js w₁) fun _ w₂ _ => Action.pure_succeeds _ w₂

theorem Layerwise.hasVars {m : Model Rat} {ls : List (Layer Rat)} {uss : List (List HiddenUnit)}
    {iss : List (List (Interval Rat))} (h : Layerwise (HiddenUnit.Stands m) prev ls uss iss) :
    List.Forall₂ (fun l us => us.length = l.outputs ∧ m.HasVars (us.map (·.x))) ls uss := by
  induction h with
  | nil => exact .nil
  | cons hl _ ih => exact .cons ⟨hl.length_middle, HiddenUnit.Stands.hasVars hl⟩ ih

/-- Hidden layers that stand in a model are bounded again. -/
theorem retighten_succeeds {k : Nat} {ls : List (Layer Rat)} {out : Layer Rat}
    {uss : List (List HiddenUnit)} (hs : r.Solvable solver)
    (hchain : Chained (ls ++ [out])) (hfit : HiddenFits r.name k ls) (hprev : w.model.HasVars prev)
    (hlen : (ls.head?.getD out).inputs = prev.length)
    (hus : List.Forall₂ (fun l us => us.length = l.outputs ∧ w.model.HasVars (us.map (·.x))) ls uss)
    (hk : 1 ≤ k) (hlast : k + ls.length ≤ r.network.hidden.length + 1) (iss : List (List (Interval Rat))) :
    ∃ p w', retighten solver r k prev ls uss iss w = .ok p w' := by
  induction ls generalizing k prev uss iss w with
  | nil =>
    cases hus
    exact ⟨_, _, rfl⟩
  | cons l ls ih =>
    cases hus with
    | @cons _ us _ uss hl hus =>
    cases iss with
    | nil => exact ⟨_, _, rfl⟩
    | cons is iss =>
      obtain ⟨hwidth, hvars⟩ := hl
      have hunits : ∀ j, j < 0 + us.length → UnitFits r.name k j := by
        intro j hj
        refine hfit.1.units j ?_
        omega
      refine Action.bind_succeeds (tightenLayer_succeeds hs.total (fun _ => hs.settings) hs.jobs hprev hlen is)
        fun js w₁ hjs => ?_
      rw [List.length_cons] at hlast
      refine Action.bind_succeeds (Action.ofExcept_succeeds
        (Network.checkHidden_succeeds hk (by omega)) w₁) fun _ w₁' hcheck => ?_
      obtain ⟨-, rfl⟩ := Action.ofExcept_eq_ok.1 hcheck
      refine Action.bind_succeeds (replaceUnits_succeeds hunits js w₁) fun us' w₂ hus' => ?_
      -- the variables stay, and so does what the other layers read
      obtain ⟨hmap, hsame⟩ := replaceUnits_vars hus'
      have hstay : w₂.model.vars = w.model.vars := by rw [hsame.vars, (tightenLayer_eq_ok hjs).1]
      have hkeep : ∀ ids, w.model.HasVars ids → w₂.model.HasVars ids := by
        intro ids h
        unfold Model.HasVars
        rw [hstay]
        exact h
      obtain ⟨hchain', hhead⟩ := hchain.tail
      have hprev' : w₂.model.HasVars (us'.map (·.x)) := by
        rw [map_x_of_map_vars hmap]
        exact hkeep _ hvars
      have hlen' : (ls.head?.getD out).inputs = (us'.map (·.x)).length := by
        rw [hhead, map_x_of_map_vars hmap, List.length_map, hwidth]
      have hlater := ih hchain' hfit.2 hprev' hlen' (hus.imp fun _ _ h => ⟨h.1, hkeep _ h.2⟩)
        (by omega) (by omega) iss
      exact Action.bind_succeeds hlater fun _ w₃ _ => Action.pure_succeeds _ w₃

end Layers

/-! ### Builds -/

/-- The names of everything in a request fit. -/
structure Request.NamesFit (r : Request Rat) : Prop where
  inputs : VectorFits (layerName r.name "x" 0) r.network.inputs
  box : ∀ part ∈ ["input_ub", "input_lb"], VectorFits (qualify r.name part) r.network.inputs
  hidden : HiddenFits r.name 1 r.network.hidden
  outputs : ∀ part ∈ ["x", "mix"],
    VectorFits (layerName r.name part (r.network.hidden.length + 1)) r.network.outputs
  range : ∀ part ∈ ["output_lb", "output_ub"], VectorFits (qualify r.name part) r.network.outputs

/-- Whether the names fit depends on the network and its name alone. -/
theorem Request.NamesFit.congr {r r' : Request Rat} (h : r.NamesFit) (hnetwork : r'.network = r.network)
    (hname : r'.name = r.name) : r'.NamesFit := by
  obtain ⟨hinputs, hbox, hhidden, houtputs, hrange⟩ := h
  rw [← hnetwork, ← hname] at hinputs hbox hhidden houtputs hrange
  exact ⟨hinputs, hbox, hhidden, houtputs, hrange⟩

section Builds

variable {solver : Solver Rat} {r : Request Rat} {w : Workspace Rat}

theorem nameFits_boxDrafts {d : RowDraft Rat} {xs : List VarId} (hfit : r.NamesFit)
    (hx : xs.length = r.network.inputs) (hd : d ∈ r.boxDrafts xs) : RowDraft.nameFits d.name = true := by
  rcases List.mem_append.1 hd with hd | hd
  · exact hfit.box "input_ub" (by simp) _ (hx ▸ name_boundDrafts hd)
  · exact hfit.box "input_lb" (by simp) _ (hx ▸ name_boundDrafts hd)

theorem nameFits_rangeDrafts {d : RowDraft Rat} {xs : List VarId} (hfit : r.NamesFit)
    (hx : xs.length = r.network.outputs) (hd : d ∈ r.rangeDrafts xs) :
    RowDraft.nameFits d.name = true := by
  unfold Request.rangeDrafts rangeBlocks at hd
  split at hd
  · rw [List.flatMap_cons, List.flatMap_singleton] at hd
    rcases List.mem_append.1 hd with hd | hd
    · exact hfit.range "output_lb" (by simp) _ (hx ▸ name_boundDrafts hd)
    · exact hfit.range "output_ub" (by simp) _ (hx ▸ name_boundDrafts hd)
  · exact absurd hd List.not_mem_nil

theorem Request.assemble_succeeds (hs : r.Solvable solver) (hfit : r.NamesFit) (hr : r.WellFormed)
    (hm : w.model.WellFormed) : ∃ s w', r.assemble solver w = .ok s w' := by
  refine Action.bind_succeeds (addVector_succeeds hfit.inputs _ _ _ w) fun inputs w₁ h₁ => ?_
  have ha₁ := addVector_adds h₁
  have hin : inputs.length = r.network.inputs := by rw [(addVector_eq_ok h₁).2, List.length_range']
  have hbox : ∀ d ∈ ([⟨true, boundDrafts (qualify r.name "input_ub") .le inputs (r.box.map (·.upper))⟩,
      ⟨true, boundDrafts (qualify r.name "input_lb") .ge inputs (r.box.map (·.lower))⟩] :
        List (RowBlock Rat)).flatMap (·.rows), RowDraft.nameFits d.name = true := by
    intro d hd
    rw [List.flatMap_cons, List.flatMap_singleton] at hd
    exact nameFits_boxDrafts hfit hin hd
  refine Action.bind_succeeds (commit_succeeds hbox w₁) fun inputRows w₂ h₂ => ?_
  obtain ⟨hm₂, -⟩ := Action.commit_eq_ok h₂
  have hprev : w₂.model.HasVars inputs := by
    intro id hid
    obtain ⟨t, hv⟩ := mem_addVector h₁ hid
    rw [hm₂]
    exact ⟨_, hv, rfl⟩
  have hwf : w₂.model.WellFormed := by
    rw [hm₂, List.flatMap_cons, List.flatMap_singleton]
    refine (adds_withRows w₁.model (r.boxDrafts inputs) fun d hd t ht => ?_).wellFormed (ha₁.wellFormed hm)
    exact (ha₁.vars_new (terms_boxDrafts hd ht)).2
  obtain ⟨stem, w₃, hstem, hlast, hout, hbounds⟩ : ∃ stem w₃,
      buildHidden solver r (0 + 1) inputs false r.box r.network.hidden w₂ = .ok stem w₃ ∧
        w₃.model.HasVars stem.last ∧ r.network.output.inputs = stem.last.length ∧
        stem.bounds.length = stem.last.length :=
    buildHidden_succeeds hs hr.fits_hidden r.network.chained hfit.hidden hwf hprev hin.symm
      (hr.box_length.trans hin.symm)
  refine Action.bind_succeeds ⟨stem, w₃, hstem⟩ fun stem' w₃' hstem' => ?_
  rw [hstem] at hstem'
  cases hstem'
  refine Action.bind_succeeds (layerBounds_succeeds hs hlast hout (hbounds.trans hout.symm)) fun is w₄ _ => ?_
  refine Action.bind_succeeds (addVector_succeeds (hfit.outputs "x" (by simp)) _ _ _ w₄)
    fun outputs w₅ h₅ => ?_
  have hlen : outputs.length = r.network.outputs := by rw [(addVector_eq_ok h₅).2, List.length_range']
  have hrows : ∀ d ∈ (⟨true, outputDrafts (layerName r.name "mix" (r.network.hidden.length + 1)) outputs
      r.network.output stem.last⟩ :: rangeBlocks r.name outputs r.plan).flatMap (·.rows),
      RowDraft.nameFits d.name = true := by
    intro d hd
    rw [List.flatMap_cons] at hd
    rcases List.mem_append.1 hd with hd | hd
    · exact hfit.outputs "mix" (by simp) _ (name_outputDrafts hd)
    · exact nameFits_rangeDrafts hfit hlen hd
  exact Action.bind_succeeds (commit_succeeds hrows w₅) fun _ w₆ _ => Action.pure_succeeds _ w₆

theorem FreeStand.hasVars {m : Model Rat} {ids : List VarId} (h : FreeStand m ids) : m.HasVars ids := by
  intro id hid
  obtain ⟨name, hv⟩ := h id hid
  exact ⟨_, hv, rfl⟩

theorem Request.finish_succeeds {s : Assembled Rat} (hs : r.Solvable solver) (hfit : r.NamesFit)
    (hb : s.body.Stands w.model r.network s.table) : ∃ f w', r.finish solver s w = .ok f w' := by
  unfold Request.finish
  cases r.plan with
  | fast => exact Action.pure_succeeds _ w
  | standard => exact Action.pure_succeeds _ w
  | output range =>
    have hagain := retighten_succeeds hs r.network.chained hfit.hidden hb.inputs.hasVars
      hb.inputs_length.symm hb.hidden.hasVars le_rfl (Nat.add_comm 1 _).le s.table
    exact Action.bind_succeeds hagain fun _ w₁ _ => Action.pure_succeeds _ w₁

/-- A request with names that fit is built. -/
theorem Request.build_succeeds (hs : r.Solvable solver) (hfit : r.NamesFit) (hr : r.WellFormed)
    (hm : w.model.WellFormed) : ∃ f w', r.build solver w = .ok f w' := by
  rw [r.build_eq]
  refine Action.bind_succeeds (Request.assemble_succeeds hs hfit hr hm) fun s w₁ hass => ?_
  obtain ⟨stem, v, v', hass⟩ := assemble_eq_ok hass
  exact Request.finish_succeeds hs hfit (hass.stands hr)

end Builds

/-- A build sets parameters; then it ends with the fault of its request, or goes on from it. -/
theorem formulateNetwork_eq {α : Type} [Scalar α] {settings : Option Settings}
    (hset : ∀ s ∈ settings, s.Accepted) (solver : Solver α) (a : BuildArguments α) (w : Workspace α) :
    ∃ p, (∀ f, ({ a with settings := settings.getD .default } : BuildArguments α).request = .error f →
        formulateNetwork solver settings a w =
          .error f { w with model := { w.model with parameters := p } }) ∧
      ∀ r, ({ a with settings := settings.getD .default } : BuildArguments α).request = .ok r →
        formulateNetwork solver settings a w =
          r.build solver { w with model := { w.model with parameters := p } } := by
  obtain ⟨p, hp⟩ : ∃ p, formulateNetwork solver settings a w =
      ((Action.ofExcept ({ a with settings := settings.getD .default } : BuildArguments α).request :
        Action α (Request α)) >>= fun r => r.build solver)
          { w with model := { w.model with parameters := p } } := by
    unfold formulateNetwork
    cases settings with
    | none => exact ⟨w.model.parameters, rfl⟩
    | some s =>
      exact ⟨s.inForce w.model.parameters, Action.bind_of_eq_ok ((hset s rfl).changeParameters w)⟩
  rw [hp]
  refine ⟨p, fun f hf => ?_, fun r hr => ?_⟩
  · rw [hf]
    rfl
  · rw [hr]
    rfl

/-- A network is formulated if the request is accepted and solvable, and its names fit. -/
theorem formulateNetwork_succeeds {solver : Solver Rat} {settings : Option Settings}
    {a : BuildArguments Rat} {r : Request Rat} {w : Workspace Rat}
    (hreq : ({ a with settings := settings.getD .default } : BuildArguments Rat).request = .ok r)
    (ha : a.Faithful) (hs : r.Solvable solver) (hfit : r.NamesFit) (hm : w.model.WellFormed) :
    ∃ f w', formulateNetwork solver settings a w = .ok f w' := by
  have hset : ∀ s ∈ settings, s.Accepted := by
    rintro s rfl
    have haccepted := hs.settings
    rw [(request_settings hreq).1] at haccepted
    exact haccepted
  obtain ⟨p, -, hok⟩ := formulateNetwork_eq hset solver a w
  rw [hok r hreq]
  exact Request.build_succeeds hs hfit ((request_eq_ok hreq).wellFormed ha) (Model.wellFormed_parameters hm p)

end ReluMilp
