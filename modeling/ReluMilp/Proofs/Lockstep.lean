import ReluMilp.Proofs.Succeeding

/-!
# Builds in lockstep

Two runs of a build on the same model that tighten layers in different ways.

* `Action.ending`, `Action.ending_bind` — how an action ends, and that compositions end alike if their parts
  do;
* `Action.Steady` — an action that looks at nothing but the model; `addHidden_steady`,
  `replaceUnits_steady`;
* `Model.Retains` — the variables and the parameters that a build finds stay; `addHidden_retains`,
  `buildHidden_retains`;
* `SameTightening` — two ways to tighten layers that end alike; `Request.Solves` — requests that tighten any;
* `buildHidden_ending`, `retighten_ending`, `Request.build_ending` — then whole builds end alike;
* `Solver.AlikeUnder`, `sameTightening_of_alike` — solvers that agree under the parameters of the problems
  tighten alike; `BuildArguments.build_ending`.
-/

namespace ReluMilp

/-! ### Endings -/

namespace Action

variable {α β γ : Type}

/-- How an action ends: with a result or a fault, and with a model. -/
def ending (act : Action α β) (w : Workspace α) : Except Fault β × Model α :=
  match act w with
  | .ok b v => (.ok b, v.model)
  | .error f v => (.error f, v.model)

theorem ending_of_eq_ok {act : Action α β} {b : β} {w v : Workspace α} (h : act w = .ok b v) :
    act.ending w = (.ok b, v.model) := by
  unfold ending
  rw [h]

theorem ending_eq_ok {act : Action α β} {b : β} {m : Model α} {w : Workspace α}
    (h : act.ending w = (.ok b, m)) : ∃ v, act w = .ok b v ∧ v.model = m := by
  unfold ending at h
  cases hact : act w with
  | ok c v =>
    rw [hact] at h
    cases h
    exact ⟨v, rfl, rfl⟩
  | error f v =>
    rw [hact] at h
    cases h

/-- Actions that end alike give the same result. -/
theorem ok_of_ending {act act' : Action α β} {b : β} {w w' v : Workspace α} (h : act w = .ok b v)
    (heq : act.ending w = act'.ending w') : ∃ v', act' w' = .ok b v' ∧ v'.model = v.model :=
  ending_eq_ok (heq.symm.trans (ending_of_eq_ok h))

theorem ending_of_eq_error {act : Action α β} {f : Fault} {w v : Workspace α} (h : act w = .error f v) :
    act.ending w = (.error f, v.model) := by
  unfold ending
  rw [h]

theorem error_of_ending {act act' : Action α β} {f : Fault} {w w' v : Workspace α} (h : act w = .error f v)
    (heq : act.ending w = act'.ending w') : ∃ v', act' w' = .error f v' ∧ v'.model = v.model := by
  rw [ending_of_eq_error h] at heq
  unfold ending at heq
  cases hact : act' w' with
  | ok b v' =>
    rw [hact] at heq
    cases heq
  | error f' v' =>
    rw [hact] at heq
    obtain ⟨hf, hm⟩ := Prod.mk.inj heq
    cases hf
    exact ⟨v', rfl, hm.symm⟩

/-- Compositions end alike if their first actions do, and what follows then does. -/
theorem ending_bind {act act' : Action α β} {next next' : β → Action α γ} {w w' : Workspace α}
    (h : act.ending w = act'.ending w')
    (hnext : ∀ b v v', act w = .ok b v → v.model = v'.model → (next b).ending v = (next' b).ending v') :
    (act >>= next).ending w = (act' >>= next').ending w' := by
  cases hact : act w with
  | ok b v =>
    obtain ⟨v', hact', hm⟩ := ok_of_ending hact h
    have hrest := hnext b v v' hact hm.symm
    unfold ending at *
    rw [bind_of_eq_ok hact, bind_of_eq_ok hact']
    exact hrest
  | error f v =>
    obtain ⟨v', hact', hm⟩ := error_of_ending hact h
    rw [ending_of_eq_error (bind_of_eq_error hact), ending_of_eq_error (bind_of_eq_error hact'), hm]

theorem ending_bracket (before : Model α → Model α) (after : Model α → Model α → Model α)
    (act : Action α β) (w : Workspace α) :
    (bracket before after act).ending w = ((act.ending (w.withModel (before w.model))).1,
      after w.model (act.ending (w.withModel (before w.model))).2) := by
  unfold ending bracket
  cases act (w.withModel (before w.model)) with
  | ok b v => rfl
  | error f v => rfl

theorem ending_onCopy {copy : Model α → Except Fault (Model α)} {m : Model α} {w : Workspace α}
    (h : copy w.model = .ok m) (act : Action α β) :
    (onCopy copy act).ending w = ((act.ending ⟨m, none, false, w.attempts⟩).1, w.model) := by
  unfold ending onCopy
  rw [h]
  dsimp only
  cases act ⟨m, none, false, w.attempts⟩ with
  | ok b v => rfl
  | error f v => rfl

theorem ending_onCopy_error {copy : Model α → Except Fault (Model α)} {f : Fault} {w : Workspace α}
    (h : copy w.model = .error f) (act : Action α β) : (onCopy copy act).ending w = (.error f, w.model) := by
  unfold ending onCopy
  rw [h]

/-! ### Steady actions -/

/-- An action that looks at nothing but the model. -/
def Steady (act : Action α β) : Prop := ∀ w w', w.model = w'.model → act.ending w = act.ending w'

theorem pure_steady (b : β) : (pure b : Action α β).Steady := fun _ _ h => congrArg (Prod.mk _) h

theorem ofExcept_steady (e : Except Fault β) : (ofExcept e : Action α β).Steady := by
  intro w w' h
  cases e with
  | ok b => exact congrArg (Prod.mk _) h
  | error f => exact congrArg (Prod.mk _) h

theorem settle_steady : (settle : Action α Unit).Steady := by
  intro w w' h
  show ((.ok () : Except Fault Unit), w.settled.model) = (.ok (), w'.settled.model)
  rw [Workspace.settled_model, Workspace.settled_model, h]

theorem bind_steady {act : Action α β} {next : β → Action α γ} (h : act.Steady)
    (hnext : ∀ b, (next b).Steady) : (act >>= next).Steady :=
  fun w w' hw => ending_bind (h w w' hw) fun b v v' _ hv => hnext b v v' hv

theorem model_steady : (model : Action α (Model α)).Steady := fun w w' h => by
  show ((.ok w.model : Except Fault (Model α)), w.model) = (.ok w'.model, w'.model)
  rw [h]

theorem update_steady (f : Model α → Except Fault (Model α × β)) : (update f).Steady := by
  intro w w' h
  unfold ending update
  rw [h]
  cases f w'.model with
  | ok p => rfl
  | error e => exact congrArg (Prod.mk _) h

theorem dropRows_steady (ids : List RowId) : (dropRows ids : Action α Unit).Steady := fun w w' h => by
  show ((.ok () : Except Fault Unit), w.model.removeRows ids) = (.ok (), w'.model.removeRows ids)
  rw [h]

theorem stage_steady [Scalar α] (blocks : List (RowBlock α)) : (stage blocks).Steady := by
  intro w w' h
  unfold ending stage
  rw [h]
  cases w'.model.addRows ((taken blocks).flatMap (·.rows)) with
  | error f => exact congrArg (Prod.mk _) h
  | ok p =>
    by_cases hall : (taken blocks).length < blocks.length
    · simp only [if_pos hall, Workspace.withWaiting_model]
    · simp only [if_neg hall, Workspace.withWaiting_model]

theorem commit_steady [Scalar α] (blocks : List (RowBlock α)) : (commit blocks).Steady := by
  intro w w' h
  have hstage := stage_steady blocks w w' h
  unfold ending commit
  cases hw : stage blocks w with
  | ok ids v =>
    obtain ⟨v', hw', hm⟩ := ok_of_ending hw hstage
    rw [hw']
    simp only [Workspace.settled_model, hm]
  | error f v =>
    obtain ⟨v', hw', hm⟩ := error_of_ending hw hstage
    rw [hw']
    by_cases hall : (taken blocks).length < blocks.length
    · simp only [if_pos hall, hm]
    · simp only [if_neg hall, Workspace.settled_model, hm]

end Action

section Layers

open ReluMilp.Action

variable {α : Type} [Scalar α]

omit [Scalar α] in
theorem addVector_steady (name : String) (n : Nat) (kind : VarKind) (lower upper : Limit α) :
    (addVector name n kind lower upper).Steady := update_steady _

omit [Scalar α] in
theorem nextRow_steady : (nextRow : Action α RowId).Steady := bind_steady model_steady fun _ => pure_steady _

theorem addHidden_steady (name : Value) (k : Nat) (prev : List VarId) (l : Layer α) (is : List (Interval α)) :
    (addHidden name k prev l is).Steady := by
  refine bind_steady (addVector_steady _ _ _ _ _) fun xs => ?_
  refine bind_steady (addVector_steady _ _ _ _ _) fun ss => ?_
  refine bind_steady (addVector_steady _ _ _ _ _) fun zs => ?_
  refine bind_steady nextRow_steady fun base => ?_
  exact bind_steady (commit_steady _) fun _ => pure_steady _

theorem replaceUnit_steady (name layer neuron : Value) (u : HiddenUnit) (i : Interval α) :
    (replaceUnit name layer neuron u i).Steady := by
  refine bind_steady (dropRows_steady _) fun _ => ?_
  refine bind_steady nextRow_steady fun base => ?_
  exact bind_steady (commit_steady _) fun _ => pure_steady _

theorem replaceUnits_steady (name : Value) (k i : Nat) (us : List HiddenUnit) (is : List (Interval α)) :
    (replaceUnits name k i us is).Steady := by
  induction us generalizing i is with
  | nil => exact pure_steady _
  | cons u us ih =>
    cases is with
    | nil => exact pure_steady _
    | cons b bs =>
      refine bind_steady (replaceUnit_steady _ _ _ u b) fun _ => ?_
      exact bind_steady (ih (i + 1) bs) fun _ => pure_steady _

end Layers

/-! ### What stays in a model -/

/-- The variables of a model stay, and so do its parameters. -/
structure Model.Retains (m m' : Model Rat) : Prop where
  parameters : m'.parameters = m.parameters
  vars : m.vars ⊆ m'.vars

namespace Model.Retains

variable {m m₁ m₂ : Model Rat}

theorem refl (m : Model Rat) : m.Retains m := ⟨rfl, List.Subset.refl _⟩

theorem trans (h : m.Retains m₁) (h' : m₁.Retains m₂) : m.Retains m₂ :=
  ⟨h'.parameters.trans h.parameters, List.Subset.trans h.vars h'.vars⟩

theorem hasVars {ids : List VarId} (h : m.Retains m₁) (hids : m.HasVars ids) : m₁.HasVars ids := by
  intro id hid
  obtain ⟨v, hv, rfl⟩ := hids id hid
  exact ⟨v, h.vars hv, rfl⟩

theorem of_eq (h : m₁ = m) : m.Retains m₁ := by
  rw [h]
  exact .refl m

end Model.Retains

section Retained

variable {w w' : Workspace Rat}

theorem addVector_retains {name : String} {n : Nat} {kind : VarKind} {lower upper : Limit Rat}
    {ids : List VarId} (h : addVector name n kind lower upper w = .ok ids w') :
    w.model.Retains w'.model ∧ w'.model.HasVars ids := by
  refine ⟨?_, fun id hid => ?_⟩
  · rw [(addVector_eq_ok h).1]
    exact ⟨rfl, List.subset_append_left _ _⟩
  · obtain ⟨t, hv⟩ := mem_addVector h hid
    exact ⟨_, hv, rfl⟩

theorem commit_retains {blocks : List (RowBlock Rat)} {ids : List RowId}
    (h : Action.commit blocks w = .ok ids w') : w.model.Retains w'.model := by
  rw [(Action.commit_eq_ok h).1]
  exact ⟨rfl, List.Subset.refl _⟩

/-- A hidden layer has a variable per neuron for the next layer to read. -/
theorem addHidden_retains {name : Value} {k : Nat} {prev : List VarId} {l : Layer Rat}
    {is : List (Interval Rat)} {us : List HiddenUnit} (h : addHidden name k prev l is w = .ok us w') :
    w.model.Retains w'.model ∧ w'.model.HasVars (us.map (·.x)) ∧ us.length = l.outputs := by
  obtain ⟨xs, w₁, hxs, h⟩ := Action.bind_eq_ok.1 h
  obtain ⟨ss, w₂, hss, h⟩ := Action.bind_eq_ok.1 h
  obtain ⟨zs, w₃, hzs, h⟩ := Action.bind_eq_ok.1 h
  obtain ⟨base, w₄, hbase, h⟩ := Action.bind_eq_ok.1 h
  obtain ⟨rows, w₅, hrows, h⟩ := Action.bind_eq_ok.1 h
  obtain ⟨rfl, rfl⟩ := Action.pure_eq_ok.1 h
  obtain ⟨rfl, rfl⟩ := nextRow_eq_ok hbase
  have hxl : xs.length = l.outputs := by rw [(addVector_eq_ok hxs).2, List.length_range']
  have hsl : ss.length = l.outputs := by rw [(addVector_eq_ok hss).2, List.length_range']
  have hzl : zs.length = l.outputs := by rw [(addVector_eq_ok hzs).2, List.length_range']
  obtain ⟨h₁, hids⟩ := addVector_retains hxs
  have hlater := (addVector_retains hss).1.trans ((addVector_retains hzs).1.trans (commit_retains hrows))
  refine ⟨h₁.trans hlater, ?_, length_unitsFrom _ hxl hsl hzl⟩
  have hread : (unitsFrom w₄.model.nextRow l.outputs xs ss zs).map (·.x) = xs :=
    map_unitsFrom hxl hsl hzl hxl fun _ _ hu => (getElem?_unitsFrom hu).1
  rw [hread]
  exact hlater.hasVars hids

theorem replaceUnits_retains {name : Value} {k i : Nat} {us us' : List HiddenUnit}
    {js : List (Interval Rat)} (h : replaceUnits name k i us js w = .ok us' w') :
    w.model.Retains w'.model := by
  induction us generalizing i js w us' with
  | nil =>
    obtain ⟨-, rfl⟩ := Action.pure_eq_ok.1 h
    exact .refl _
  | cons u us ih =>
    cases js with
    | nil =>
      obtain ⟨-, rfl⟩ := Action.pure_eq_ok.1 h
      exact .refl _
    | cons j js =>
      obtain ⟨u', w₁, hreplace, h⟩ := Action.bind_eq_ok.1 h
      obtain ⟨us₂, w₂, hrest, h⟩ := Action.bind_eq_ok.1 h
      obtain ⟨-, rfl⟩ := Action.pure_eq_ok.1 h
      obtain ⟨-, t, t', hw₁⟩ := replaceUnit_eq_ok hreplace
      have hswap : w.model.Retains w₁.model := by
        rw [hw₁]
        exact ⟨rfl, List.Subset.refl _⟩
      exact hswap.trans (ih hrest)

/-- Hidden layers have a variable per neuron, and the last of them, or the inputs, are what the output
layer reads. -/
theorem buildHidden_retains {solver : Solver Rat} {r : Request Rat} {k : Nat} {prev : List VarId}
    {rectified : Bool} {before : List (Interval Rat)} {ls : List (Layer Rat)} {out : Layer Rat}
    {stem : Stem Rat} (hchain : Chained (ls ++ [out])) (hprev : w.model.HasVars prev)
    (hlen : (ls.head?.getD out).inputs = prev.length)
    (h : buildHidden solver r k prev rectified before ls w = .ok stem w') :
    w.model.Retains w'.model ∧ w'.model.HasVars stem.last ∧ out.inputs = stem.last.length ∧
      List.Forall₂ (fun l us => us.length = l.outputs ∧ w'.model.HasVars (us.map (·.x))) ls stem.units := by
  induction ls generalizing k prev rectified before w stem with
  | nil =>
    obtain ⟨rfl, rfl⟩ := Action.pure_eq_ok.1 h
    exact ⟨.refl _, hprev, hlen, .nil⟩
  | cons l ls ih =>
    obtain ⟨is, us, rest, w₁, w₂, his, hus, hrest, rfl⟩ := buildHidden_cons h
    obtain ⟨hadd, hvars, hwidth⟩ := addHidden_retains hus
    obtain ⟨hchain', hhead⟩ := hchain.tail
    have hlen' : (ls.head?.getD out).inputs = (us.map (·.x)).length := by
      rw [hhead, List.length_map, hwidth]
    obtain ⟨hret, hlast, hout, hunits⟩ := ih hchain' hvars hlen' hrest
    have hfirst := (Model.Retains.of_eq (layerBounds_eq_ok his).1).trans hadd
    exact ⟨hfirst.trans hret, hlast, hout, .cons ⟨hwidth, hret.hasVars hvars⟩ hunits⟩

theorem retighten_retains {solver : Solver Rat} {r : Request Rat} {k : Nat} {prev : List VarId}
    {ls : List (Layer Rat)} {uss : List (List HiddenUnit)} {iss : List (List (Interval Rat))}
    {q : List (List HiddenUnit) × List (List (Interval Rat))}
    (h : retighten solver r k prev ls uss iss w = .ok q w') : w.model.Retains w'.model := by
  induction ls generalizing k prev uss iss w q with
  | nil =>
    obtain ⟨-, rfl⟩ := Action.pure_eq_ok.1 h
    exact .refl _
  | cons l ls ih =>
    cases uss with
    | nil =>
      obtain ⟨-, rfl⟩ := Action.pure_eq_ok.1 h
      exact .refl _
    | cons us uss =>
    cases iss with
    | nil =>
      obtain ⟨-, rfl⟩ := Action.pure_eq_ok.1 h
      exact .refl _
    | cons is iss =>
      obtain ⟨js, w₁, us', w₂, uss₂, iss₂, hjs, -, hus, hrest, -⟩ := retighten_eq_ok.1 h
      have hfirst := (Model.Retains.of_eq (tightenLayer_eq_ok hjs).1).trans (replaceUnits_retains hus)
      exact hfirst.trans (ih hrest)

theorem Request.build_retains {solver : Solver Rat} {r : Request Rat} {f : Formulation Rat}
    (h : r.build solver w = .ok f w') : w.model.Retains w'.model := by
  obtain ⟨inputs, w₁, hinputs, h⟩ := Action.bind_eq_ok.1 h
  obtain ⟨inputRows, w₂, hbox, h⟩ := Action.bind_eq_ok.1 h
  obtain ⟨stem, w₃, hstem, h⟩ := Action.bind_eq_ok.1 h
  obtain ⟨is, w₄, his, h⟩ := Action.bind_eq_ok.1 h
  obtain ⟨outputs, w₅, houtputs, h⟩ := Action.bind_eq_ok.1 h
  obtain ⟨rows, w₆, hrows, h⟩ := Action.bind_eq_ok.1 h
  obtain ⟨hadd, hvars⟩ := addVector_retains hinputs
  have hstart := hadd.trans (commit_retains hbox)
  have hwidth : r.network.inputs = inputs.length := by rw [(addVector_eq_ok hinputs).2, List.length_range']
  have hhidden := (buildHidden_retains r.network.chained ((commit_retains hbox).hasVars hvars) hwidth hstem).1
  have hassembled := (hstart.trans hhidden).trans ((Model.Retains.of_eq (layerBounds_eq_ok his).1).trans
    ((addVector_retains houtputs).1.trans (commit_retains hrows)))
  dsimp only at h
  cases hplan : r.plan with
  | output range =>
    rw [hplan] at h
    obtain ⟨q, w₇, hagain, h⟩ := Action.bind_eq_ok.1 h
    obtain ⟨-, rfl⟩ := Action.pure_eq_ok.1 h
    exact hassembled.trans (retighten_retains hagain)
  | fast =>
    rw [hplan] at h
    obtain ⟨-, rfl⟩ := Action.pure_eq_ok.1 h
    exact hassembled
  | standard =>
    rw [hplan] at h
    obtain ⟨-, rfl⟩ := Action.pure_eq_ok.1 h
    exact hassembled

end Retained

/-! ### Two ways to tighten layers -/

/-- Two ways to tighten layers that end alike on every model with some parameters that has the variables
which a layer reads. -/
def SameTightening (p : Parameters) (s : Settings) (solver solver' : Solver Rat) (jobs jobs' : Jobs) :
    Prop :=
  ∀ (w w' : Workspace Rat) prev (l : Layer Rat) known, w.model = w'.model → w.model.parameters = p →
    w.model.HasVars prev → l.inputs = prev.length →
      (tightenLayer solver s jobs prev l known).ending w = (tightenLayer solver' s jobs' prev l known).ending w'

section Lockstep

variable {solver solver' : Solver Rat} {r : Request Rat} {jobs : Jobs} {p : Parameters} {prev : List VarId}
  {w w' : Workspace Rat}

/-- The request for other jobs. -/
def Request.withJobs (r : Request Rat) (jobs : Jobs) : Request Rat := { r with jobs := jobs }

/-- A build of the request solves problems: it optimises, be it bounds that are not given or again those of
the complete model. -/
structure Request.Solves (r : Request Rat) : Prop where
  plan : r.plan ≠ .fast
  given : r.plan = .standard → r.given = none

theorem layerBounds_ending (hsame : r.Solves → SameTightening p r.settings solver solver' r.jobs jobs)
    (k : Nat) (rectified : Bool) (before : List (Interval Rat)) {l : Layer Rat} (hw : w.model = w'.model)
    (hp : w.model.parameters = p) (hprev : w.model.HasVars prev) (hlen : l.inputs = prev.length) :
    (layerBounds solver r k prev rectified before l).ending w =
      (layerBounds solver' (r.withJobs jobs) k prev rectified before l).ending w' := by
  unfold layerBounds Request.withJobs
  dsimp only
  cases hgiven : r.given with
  | some table => exact Action.pure_steady _ w w' hw
  | none =>
    refine Action.ending_bind (Action.ofExcept_steady _ w w' hw) fun is v v' hv hm => ?_
    obtain ⟨-, rfl⟩ := Action.ofExcept_eq_ok.1 hv
    cases hplan : r.plan with
    | fast => exact Action.pure_steady _ w v' hm
    | output range => exact Action.pure_steady _ w v' hm
    | standard =>
      have hsolves : r.Solves := ⟨by rw [hplan]; exact nofun, fun _ => hgiven⟩
      exact hsame hsolves w v' prev l _ hm hp hprev hlen

theorem buildHidden_ending (hsame : r.Solves → SameTightening p r.settings solver solver' r.jobs jobs)
    (k : Nat) (rectified : Bool) (before : List (Interval Rat)) {ls : List (Layer Rat)} {out : Layer Rat}
    (hchain : Chained (ls ++ [out])) (hw : w.model = w'.model) (hp : w.model.parameters = p)
    (hprev : w.model.HasVars prev) (hlen : (ls.head?.getD out).inputs = prev.length) :
    (buildHidden solver r k prev rectified before ls).ending w =
      (buildHidden solver' (r.withJobs jobs) k prev rectified before ls).ending w' := by
  induction ls generalizing k prev rectified before w w' with
  | nil => exact Action.pure_steady _ w w' hw
  | cons l ls ih =>
    unfold buildHidden
    have hlayer := layerBounds_ending hsame k rectified before hw hp hprev hlen
    refine Action.ending_bind hlayer fun is v v' hv hm => ?_
    refine Action.ending_bind (addHidden_steady r.name k prev l is v v' hm) fun us u u' hu hm' => ?_
    obtain ⟨hadd, hvars, hwidth⟩ := addHidden_retains hu
    obtain ⟨hchain', hhead⟩ := hchain.tail
    have hpu : u.model.parameters = p := by rw [hadd.parameters, (layerBounds_eq_ok hv).1, hp]
    have hlen' : (ls.head?.getD out).inputs = (us.map (·.x)).length := by
      rw [hhead, List.length_map, hwidth]
    have hrest := ih (k + 1) true is hchain' hm' hpu hvars hlen'
    exact Action.ending_bind hrest fun _ x x' _ hx => Action.pure_steady _ x x' hx

theorem retighten_ending (hsame : SameTightening p r.settings solver solver' r.jobs jobs) (k : Nat)
    {ls : List (Layer Rat)} {out : Layer Rat} {uss : List (List HiddenUnit)}
    (iss : List (List (Interval Rat))) (hchain : Chained (ls ++ [out])) (hw : w.model = w'.model)
    (hp : w.model.parameters = p) (hprev : w.model.HasVars prev)
    (hlen : (ls.head?.getD out).inputs = prev.length)
    (hus : List.Forall₂ (fun l us => us.length = l.outputs ∧ w.model.HasVars (us.map (·.x))) ls uss) :
    (retighten solver r k prev ls uss iss).ending w =
      (retighten solver' (r.withJobs jobs) k prev ls uss iss).ending w' := by
  induction ls generalizing k prev uss iss w w' with
  | nil =>
    cases hus
    exact Action.pure_steady _ w w' hw
  | cons l ls ih =>
    cases hus with
    | @cons _ us _ uss hl hus =>
    cases iss with
    | nil => exact Action.pure_steady _ w w' hw
    | cons is iss =>
      obtain ⟨hwidth, hvars⟩ := hl
      unfold retighten
      refine Action.ending_bind (hsame w w' prev l is hw hp hprev hlen) fun js v v₀' hv hm₀ => ?_
      refine Action.ending_bind (Action.ofExcept_steady _ v v₀' hm₀) fun _ v₁ v' hcheck hm => ?_
      obtain ⟨-, rfl⟩ := Action.ofExcept_eq_ok.1 hcheck
      refine Action.ending_bind (replaceUnits_steady r.name k 0 us js v v' hm) fun us' u u' hu hm' => ?_
      have hret := (Model.Retains.of_eq (tightenLayer_eq_ok hv).1).trans (replaceUnits_retains hu)
      have hread : us'.map (·.x) = us.map (·.x) := map_x_of_map_vars (replaceUnits_vars hu).1
      obtain ⟨hchain', hhead⟩ := hchain.tail
      have hprev' : u.model.HasVars (us'.map (·.x)) := by
        rw [hread]
        exact hret.hasVars hvars
      have hlen' : (ls.head?.getD out).inputs = (us'.map (·.x)).length := by
        rw [hhead, hread, List.length_map, hwidth]
      have hrest := ih (k + 1) iss hchain' hm' (hret.parameters.trans hp) hprev' hlen'
        (hus.imp fun _ _ h => ⟨h.1, hret.hasVars h.2⟩)
      exact Action.ending_bind hrest fun _ x x' _ hx => Action.pure_steady _ x x' hx

/-- Builds end alike if they tighten layers alike, or if they solve nothing. -/
theorem Request.build_ending (hsame : r.Solves → SameTightening p r.settings solver solver' r.jobs jobs)
    (hw : w.model = w'.model) (hp : w.model.parameters = p) :
    (r.build solver).ending w = ((r.withJobs jobs).build solver').ending w' := by
  unfold Request.build
  refine Action.ending_bind (addVector_steady _ _ _ _ _ w w' hw) fun inputs v₁ v₁' h₁ hm₁ => ?_
  refine Action.ending_bind (Action.commit_steady _ v₁ v₁' hm₁) fun inputRows v₂ v₂' h₂ hm₂ => ?_
  obtain ⟨hret₁, hin₁⟩ := addVector_retains h₁
  have hret₂ := commit_retains h₂
  have hin : v₂.model.HasVars inputs := hret₂.hasVars hin₁
  have hwidth : r.network.inputs = inputs.length := by rw [(addVector_eq_ok h₁).2, List.length_range']
  have hp₂ : v₂.model.parameters = p := (hret₁.trans hret₂).parameters.trans hp
  have hhidden := buildHidden_ending hsame 1 false r.box r.network.chained hm₂ hp₂ hin hwidth
  refine Action.ending_bind hhidden fun stem v₃ v₃' h₃ hm₃ => ?_
  obtain ⟨hret₃, hlast, hout, hunits⟩ := buildHidden_retains r.network.chained hin hwidth h₃
  have hp₃ : v₃.model.parameters = p := hret₃.parameters.trans hp₂
  have hbounds := layerBounds_ending hsame (r.network.hidden.length + 1) stem.rectified stem.bounds hm₃ hp₃
    hlast hout
  refine Action.ending_bind hbounds fun is v₄ v₄' h₄ hm₄ => ?_
  refine Action.ending_bind (addVector_steady _ _ _ _ _ v₄ v₄' hm₄) fun outputs v₅ v₅' h₅ hm₅ => ?_
  refine Action.ending_bind (Action.commit_steady _ v₅ v₅' hm₅) fun rows v₆ v₆' h₆ hm₆ => ?_
  have hret₆ := (Model.Retains.of_eq (layerBounds_eq_ok h₄).1).trans
    ((addVector_retains h₅).1.trans (commit_retains h₆))
  have hplans : (r.withJobs jobs).plan = r.plan := rfl
  dsimp only
  rw [hplans]
  cases hplan : r.plan with
  | fast => exact Action.pure_steady _ v₆ v₆' hm₆
  | standard => exact Action.pure_steady _ v₆ v₆' hm₆
  | output range =>
    have hsolves : r.Solves := ⟨by rw [hplan]; exact nofun, by rw [hplan]; exact nofun⟩
    have hagain := retighten_ending (hsame hsolves) 1 stem.table r.network.chained hm₆
      (hret₆.parameters.trans hp₃) ((hret₃.trans hret₆).hasVars hin) hwidth
      (hunits.imp fun _ _ h => ⟨h.1, hret₆.hasVars h.2⟩)
    exact Action.ending_bind hagain fun _ x x' _ hx => Action.pure_steady _ x x' hx

end Lockstep

/-! ### Solvers that agree under parameters -/

/-- Two solvers that give the same outcomes under some parameters, whatever was solved before. -/
def Solver.AlikeUnder (p : Parameters) (solver solver' : Solver Rat) : Prop :=
  ∀ k k' m, m.parameters = p → solver k m = solver' k' m

section Alike

variable {solver solver' : Solver Rat} {p : Parameters} {β : Type} {w w' : Workspace Rat}

theorem solve_ending (h : solver.AlikeUnder p solver') (hw : w.model = w'.model)
    (hp : w.model.parameters = p) : (Action.solve solver).ending w = (Action.solve solver').ending w' := by
  have hsolve : solver w.attempts w.model = solver' w'.attempts w'.model := by
    rw [← hw]
    exact h _ _ _ hp
  unfold Action.ending Action.solve
  rw [hsolve]
  cases solver' w'.attempts w'.model with
  | ok o => exact congrArg (Prod.mk _) hw
  | error f => exact congrArg (Prod.mk _) hw

theorem optimalValue_ending (h : solver.AlikeUnder p solver') (e : Linear Rat) (maximize : Bool)
    (hw : w.model = w'.model) (hp : w.model.parameters = p) :
    (optimalValue solver e maximize).ending w = (optimalValue solver' e maximize).ending w' := by
  unfold optimalValue
  refine Action.ending_bind (Action.update_steady _ w w' hw) fun _ v v' hv hm => ?_
  have hpv : v.model.parameters = p := by rw [setObjective_eq_ok (aim_eq_ok hv).1, hp]
  refine Action.ending_bind (solve_ending h hm hpv) fun r u u' _ hu => ?_
  refine Action.ending_bind (Action.model_steady u u' hu) fun m x x' hx hm' => ?_
  exact Action.pure_steady _ x x' hm'

theorem neuronOptima_ending (h : solver.AlikeUnder p solver') (prev : List VarId) (n : Neuron Rat)
    (hw : w.model = w'.model) (hp : w.model.parameters = p) :
    (neuronOptima solver prev n).ending w = (neuronOptima solver' prev n).ending w' := by
  refine Action.ending_bind (Action.ofExcept_steady _ w w' hw) fun e v v' hv hm => ?_
  obtain ⟨-, rfl⟩ := Action.ofExcept_eq_ok.1 hv
  refine Action.ending_bind (optimalValue_ending h e true hm hp) fun upper u u' hu hm' => ?_
  have hpu : u.model.parameters = p := by rw [(optimalValue_eq_ok hu rfl).1, hp]
  refine Action.ending_bind (optimalValue_ending h e false hm' hpu) fun lower x x' _ hx => ?_
  exact Action.pure_steady _ x x' hx

theorem subproblem_ending {act act' : Action Rat β} (relax : Bool) (hw : w.model = w'.model)
    (h : ∀ v v' : Workspace Rat, v.model = v'.model → v.model.parameters = w.model.parameters →
      act.ending v = act'.ending v') :
    (subproblem relax act).ending w = (subproblem relax act').ending w' := by
  unfold subproblem
  rw [Action.ending_bracket, Action.ending_bracket, ← hw]
  rw [h (w.withModel _) (w'.withModel _) rfl (by cases relax <;> rfl)]

/-- An action on every neuron that keeps what it needs of the model. -/
theorem eachNeuron_ending {act act' : Neuron Rat → Action Rat β} {I : Model Rat → Prop}
    (step : ∀ n (v v' : Workspace Rat), v.model = v'.model → I v.model →
      (act n).ending v = (act' n).ending v' ∧ ∀ b u, act n v = .ok b u → I u.model)
    (ns : List (Except Fault (Neuron Rat))) (hw : w.model = w'.model) (hI : I w.model) :
    (eachNeuron act ns).ending w = (eachNeuron act' ns).ending w' := by
  induction ns generalizing w w' with
  | nil => exact Action.pure_steady _ w w' hw
  | cons e ns ih =>
    cases e with
    | error f => exact congrArg (Prod.mk _) hw
    | ok n =>
      obtain ⟨hact, hkeep⟩ := step n w w' hw hI
      refine Action.ending_bind hact fun b v v' hv hm => ?_
      refine Action.ending_bind (ih hm (hkeep b v hv)) fun _ u u' _ hu => ?_
      exact Action.pure_steady _ u u' hu

/-- Layers are tightened alike by solvers that agree under the parameters of their problems. -/
theorem sameTightening_of_alike {s : Settings} {jobs : Jobs}
    (h : solver.AlikeUnder (jobs.parameters s p) solver') : SameTightening p s solver solver' jobs jobs := by
  intro w w' prev l known hw hp _ _
  unfold tightenLayer layerOptima
  refine Action.ending_bind ?_ fun _ u u' _ hu => Action.pure_steady _ u u' hu
  refine Action.ending_bind (Action.settle_steady w w' hw) fun _ v v' hv hm => ?_
  have hpv : v.model.parameters = p := by rw [Action.settle_eq_ok.1 hv, Workspace.settled_model, hp]
  cases jobs with
  | none f => exact congrArg (Prod.mk _) hm
  | inPlace =>
    refine subproblem_ending s.relax hm fun u u' hu hpu => ?_
    refine eachNeuron_ending (I := fun m => m.parameters = p) (fun n x x' hx hpx => ?_) _ hu (hpu.trans hpv)
    refine ⟨neuronOptima_ending h prev n hx hpx, fun o y hy => ?_⟩
    rw [(neuronOptima_eq_ok hy).1]
    exact hpx
  | onCopies =>
    refine Action.ending_bind (Action.model_steady v v' hm) fun m u u' _ hu => ?_
    refine Action.ending_bind (Action.ofExcept_steady _ u u' hu) fun ks x x' _ hx => ?_
    refine eachNeuron_ending (I := fun _ => True) (fun n y y' hy _ => ⟨?_, fun _ _ _ => trivial⟩) _ hx trivial
    unfold optimaOnCopy
    cases hc : copyUnder s y.model with
    | error f =>
      have hc' : copyUnder s y'.model = .error f := hy ▸ hc
      rw [Action.ending_onCopy_error hc, Action.ending_onCopy_error hc', hy]
    | ok c =>
      have hc' : copyUnder s y'.model = .ok c := hy ▸ hc
      rw [Action.ending_onCopy hc, Action.ending_onCopy hc', hy]
      have hpc : c.parameters = Jobs.onCopies.parameters s p := by
        rw [copyUnder_eq_ok hc]
        rfl
      refine congrArg (fun e : Except Fault (Optima Rat) × Model Rat => (e.1, y'.model)) ?_
      refine Action.ending_bind (Action.model_steady _ _ rfl) fun m z z' hz hmz => ?_
      obtain ⟨-, rfl⟩ := Action.model_eq_ok.1 hz
      exact subproblem_ending s.relax hmz fun t t' ht hpt => neuronOptima_ending h _ n ht (hpt.trans hpc)

/-- Arguments are built alike by solvers that agree under the parameters of their problems. -/
theorem BuildArguments.build_ending {a : BuildArguments Rat} (hw : w.model = w'.model)
    (h : solver.AlikeUnder ((Jobs.ofValue a.jobs).parameters a.settings w.model.parameters) solver') :
    ((Action.ofExcept a.request : Action Rat (Request Rat)) >>= fun r => r.build solver).ending w =
      ((Action.ofExcept a.request : Action Rat (Request Rat)) >>= fun r => r.build solver').ending w' := by
  refine Action.ending_bind (Action.ofExcept_steady a.request w w' hw) fun r v v' hv hm => ?_
  obtain ⟨hreq, rfl⟩ := Action.ofExcept_eq_ok.1 hv
  obtain ⟨hsettings, hjobs⟩ := request_settings hreq
  rw [← hsettings, ← hjobs] at h
  exact Request.build_ending (fun _ => sameTightening_of_alike h) hm rfl

end Alike

end ReluMilp
