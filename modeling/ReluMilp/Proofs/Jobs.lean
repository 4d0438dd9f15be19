import ReluMilp.Proofs.Exactness
import ReluMilp.Proofs.Lockstep

/-!
# Jobs

Where the problems of a layer are solved makes no difference if the same time limit is in force there.

* `Optima.Reached.unique`, `reached_unique` — what an exact solver reaches depends on no parameter but the
  time limit;
* `sameTightening_of_timeLimit` — layers are tightened alike wherever the time limits are the same;
* `BuildArguments.SolvesNothing` — arguments of which a build solves nothing;
* `Settings.inForce_eq`, `BuildArguments.build_jobs` — when the time limits are the same, and arguments that are
  then built alike;
* `jobs_neutral` — builds with any two numbers of jobs end alike;
* `jobs_split_absolute` — they do not if the model at hand has a time limit that copies do not get.
-/

namespace ReluMilp

/-! ### Layers under one time limit -/

section Tightening

variable {stops : Float → Model Rat → Bool} {solver : Solver Rat} {m : Model Rat} {relax : Bool}
  {p p' : Parameters}

theorem Solver.ExactUnless.gives_unique {e : Linear Rat} {maximize : Bool} {o o' : Option Rat}
    (hs : solver.ExactUnless stops) (hlimit : p.timeLimit = p'.timeLimit)
    (h : solver.Gives (m.subject relax p) e maximize o) (h' : solver.Gives (m.subject relax p') e maximize o') :
    o = o' := by
  obtain ⟨k, m₁, r, hset, hr, rfl⟩ := h
  obtain ⟨k', m₂, r', hset', hr', rfl⟩ := h'
  obtain ⟨hproblem, hlimits⟩ : m₁.problem = m₂.problem ∧
      m₁.parameters.timeLimit = m₂.parameters.timeLimit := by
    unfold Model.setObjective at hset hset'
    split at hset
    · rename_i hfinite
      rw [if_pos hfinite] at hset'
      cases hset
      cases hset'
      exact ⟨rfl, hlimit⟩
    · cases hset
  obtain ⟨o₁, ho₁, hstopped₁, hexact₁⟩ := hs k m₁
  obtain ⟨o₂, ho₂, hstopped₂, hexact₂⟩ := hs k' m₂
  rw [hr] at ho₁
  rw [hr'] at ho₂
  cases ho₁
  cases ho₂
  rw [← hproblem, ← hlimits] at hstopped₂ hexact₂
  cases hstop : stops m₁.parameters.timeLimit m₁.problem with
  | true =>
    have hnone₁ : m₁.optimum? r = none := optimum?_of_ne_optimal (by rw [hstopped₁ hstop]; exact nofun)
    have hnone₂ : m₂.optimum? r' = none := optimum?_of_ne_optimal (by rw [hstopped₂ hstop]; exact nofun)
    rw [hnone₁, hnone₂]
  | false => exact (hexact₁ hstop).optimum?_eq (hexact₂ hstop) hproblem

/-- What is reached for a neuron depends on no parameter but the time limit. -/
theorem Optima.Reached.unique {prev : List VarId} {n : Neuron Rat} {o o' : Optima Rat}
    (hs : solver.ExactUnless stops) (hlimit : p.timeLimit = p'.timeLimit)
    (h : o.Reached solver (m.subject relax p) prev n) (h' : o'.Reached solver (m.subject relax p') prev n) :
    o = o' := by
  have hu := hs.gives_unique hlimit h.upper h'.upper
  have hl := hs.gives_unique hlimit h.lower h'.lower
  cases o
  cases o'
  cases hu
  cases hl
  rfl

/-- What is reached for the neurons of a layer depends on no parameter but the time limit. -/
theorem reached_unique {prev : List VarId} {ns : List (Neuron Rat)} {os os' : List (Optima Rat)}
    (hs : solver.ExactUnless stops) (hlimit : p.timeLimit = p'.timeLimit)
    (h : List.Forall₂ (fun n o => o.Reached solver (m.subject relax p) prev n) ns os)
    (h' : List.Forall₂ (fun n o => o.Reached solver (m.subject relax p') prev n) ns os') : os = os' := by
  induction h generalizing os' with
  | nil =>
    cases h'
    rfl
  | cons ho _ ih =>
    cases h' with
    | cons ho' hrest => rw [ho.unique hs hlimit ho', ih hrest]

/-- Layers are tightened alike wherever the time limits are the same. -/
theorem sameTightening_of_timeLimit {s : Settings} {jobs jobs' : Jobs} (hs : solver.ExactUnless stops)
    (hset : s.Accepted) (hjobs : ∀ f, jobs ≠ .none f) (hjobs' : ∀ f, jobs' ≠ .none f)
    (hlimit : (jobs.parameters s p).timeLimit = (jobs'.parameters s p).timeLimit) :
    SameTightening p s solver solver jobs jobs' := by
  intro w w' prev l known hw hp hprev hlen
  have hwidths : ∀ n ∈ l.neurons, n.weights.length = prev.length := fun n hn => (l.conform n hn).trans hlen
  have hprev' : w'.model.HasVars prev := hw ▸ hprev
  obtain ⟨os, v, hos⟩ := layerOptima_succeeds hs.total (fun _ => hset) hjobs hprev hwidths
  obtain ⟨os', v', hos'⟩ := layerOptima_succeeds hs.total (fun _ => hset) hjobs' hprev' hwidths
  obtain ⟨hm, hreached⟩ := layerOptima_reached hos
  obtain ⟨hm', hreached'⟩ := layerOptima_reached hos'
  rw [hp] at hreached
  rw [← hw, hp] at hreached'
  have heq : os = os' := reached_unique hs hlimit hreached hreached'
  unfold tightenLayer
  refine Action.ending_bind ?_ fun _ u u' _ hu => Action.pure_steady _ u u' hu
  rw [Action.ending_of_eq_ok hos, Action.ending_of_eq_ok hos', hm, hm', hw, heq]

end Tightening

/-! ### Builds under one time limit -/

/-- What is in force does not depend on what was there if the settings bring a time limit. -/
theorem Settings.inForce_eq (s : Settings) {p p' : Parameters}
    (h : 0 < s.timeLimit ∨ p.timeLimit = p'.timeLimit) : s.inForce p = s.inForce p' := by
  unfold Settings.inForce
  rcases h with hpos | heq
  · rw [if_pos hpos, if_pos hpos]
  · rw [heq]

theorem Settings.timeLimit_parameters {s : Settings} {jobs : Jobs} {p : Parameters} (hset : s.Accepted)
    (h : p.timeLimit = (s.inForce .default).timeLimit) :
    (jobs.parameters s p).timeLimit = p.timeLimit := by
  unfold Jobs.parameters
  rw [hset.setAll, h]
  cases jobs with
  | inPlace => exact h
  | onCopies => rfl
  | none f => rfl

theorem request_jobs (a : BuildArguments Rat) (v : Value) :
    ({ a with jobs := v } : BuildArguments Rat).request = (·.withJobs (.ofValue v)) <$> a.request := by
  unfold BuildArguments.request
  cases a.network with
  | error kind => rfl
  | ok n =>
    simp only [map_bind]
    refine bind_congr fun n => bind_congr fun mode => bind_congr fun upper => bind_congr fun lower => ?_
    refine bind_congr fun box => bind_congr fun given => ?_
    cases mode with
    | fast => rfl
    | standard => rfl
    | output =>
      simp only [map_bind]
      exact bind_congr fun upper => bind_congr fun lower => rfl

/-- Arguments of which a build solves nothing: without optimisation, or with bounds of all layers and without
any of the output. -/
def BuildArguments.SolvesNothing (a : BuildArguments Rat) : Prop :=
  Mode.ofValue a.mode = .ok .fast ∨ Mode.ofValue a.mode = .ok .standard ∧ a.boundsUpper ≠ .absent

/-- Bounds of all layers are read as a table. -/
theorem BuildArguments.Asks.given_ne_none {a : BuildArguments Rat} {r : Request Rat} (h : a.Asks r)
    (hupper : a.boundsUpper ≠ .absent) : r.given ≠ none := by
  have hgiven := h.given
  unfold BuildArguments.table at hgiven
  split at hgiven
  · rename_i habsent _
    exact absurd habsent hupper
  · cases hgiven
  · cases hgiven
  · obtain ⟨_, -, hgiven⟩ := Except.bind_eq_ok.1 hgiven
    obtain ⟨_, -, hgiven⟩ := Except.bind_eq_ok.1 hgiven
    obtain ⟨_, -, hgiven⟩ := Except.bind_eq_ok.1 hgiven
    obtain ⟨_, -, hgiven⟩ := Except.bind_eq_ok.1 hgiven
    rw [← Except.ok.inj hgiven]
    exact Option.some_ne_none _

theorem BuildArguments.SolvesNothing.not_solves {a : BuildArguments Rat} {r : Request Rat}
    (h : a.SolvesNothing) (hr : a.Asks r) : ¬ r.Solves := by
  rintro ⟨hplan, hgiven⟩
  rcases h with hfast | ⟨hstandard, hupper⟩
  · exact hplan (hr.plan_fast hfast)
  · exact hr.given_ne_none hupper (hgiven (hr.plan_standard hstandard))

/-- A request is built alike with any jobs if one time limit is in force wherever problems are solved. -/
theorem Request.build_jobs {stops : Float → Model Rat → Bool} {solver : Solver Rat} {r : Request Rat}
    {jobs jobs' : Jobs} {w w' : Workspace Rat} (hs : solver.ExactUnless stops) (hset : r.settings.Accepted)
    (hjobs : ∀ f, jobs ≠ .none f) (hjobs' : ∀ f, jobs' ≠ .none f) (hw : w.model = w'.model)
    (hlimit : r.Solves → w.model.parameters.timeLimit = (r.settings.inForce .default).timeLimit) :
    ((r.withJobs jobs).build solver).ending w = ((r.withJobs jobs').build solver).ending w' := by
  refine Request.build_ending (r := r.withJobs jobs) (fun hsolves => ?_) hw rfl
  have heq := hlimit ⟨hsolves.plan, hsolves.given⟩
  refine sameTightening_of_timeLimit hs hset hjobs hjobs' ?_
  exact (Settings.timeLimit_parameters hset heq).trans (Settings.timeLimit_parameters hset heq).symm

/-- Arguments are built alike with any jobs if nothing is solved, or if one time limit is in force wherever
problems are solved. -/
theorem BuildArguments.build_jobs {stops : Float → Model Rat → Bool} {solver : Solver Rat}
    {a : BuildArguments Rat} {v v' : Value} {w w' : Workspace Rat} (hs : solver.ExactUnless stops)
    (hset : a.settings.Accepted) (hv : ∀ fault, Jobs.ofValue v ≠ .none fault)
    (hv' : ∀ fault, Jobs.ofValue v' ≠ .none fault) (hw : w.model = w'.model)
    (hlimit : a.SolvesNothing ∨
      w.model.parameters.timeLimit = (a.settings.inForce .default).timeLimit) :
    ((Action.ofExcept ({ a with jobs := v } : BuildArguments Rat).request : Action Rat (Request Rat)) >>=
      fun r => r.build solver).ending w =
    ((Action.ofExcept ({ a with jobs := v' } : BuildArguments Rat).request : Action Rat (Request Rat)) >>=
      fun r => r.build solver).ending w' := by
  rw [request_jobs a v, request_jobs a v']
  cases hreq : a.request with
  | error f => exact congrArg (Prod.mk _) hw
  | ok r =>
    rw [← (request_settings hreq).1] at hset hlimit
    refine Request.build_jobs hs hset hv hv' hw fun hsolves => ?_
    exact hlimit.resolve_left fun hnothing => hnothing.not_solves (request_eq_ok hreq) hsolves

/-- The number of jobs makes no difference to a build, whatever the model holds and whatever its parameters
are, if no problem is solved, as without optimisation or with a table of bounds and none of the output, if the
settings bring a time limit with them, or if none is left on the model: both builds end with the same result or
fault, and with the same model. -/
theorem jobs_neutral {stops : Float → Model Rat → Bool} {solver : Solver Rat} {settings : Option Settings}
    {a : BuildArguments Rat} {v v' : Value} {w : Workspace Rat} (hs : solver.ExactUnless stops)
    (hv : ∀ fault, Jobs.ofValue v ≠ .none fault) (hv' : ∀ fault, Jobs.ofValue v' ≠ .none fault)
    (hlimit : a.SolvesNothing ∨ (∃ s, settings = some s ∧ 0 < s.timeLimit) ∨
      w.model.parameters.timeLimit = Parameters.default.timeLimit) :
    (formulateNetwork solver settings { a with jobs := v }).ending w =
      (formulateNetwork solver settings { a with jobs := v' }).ending w := by
  unfold formulateNetwork
  cases settings with
  | none =>
    have hset : Settings.default.Accepted := by decide
    have hdefault : Parameters.default.timeLimit = (Settings.default.inForce .default).timeLimit := by
      decide +kernel
    refine BuildArguments.build_jobs (a := { a with settings := .default }) hs hset hv hv' rfl ?_
    refine hlimit.imp id fun h => ?_
    rcases h with ⟨s, hnone, -⟩ | h
    · cases hnone
    · exact h.trans hdefault
  | some s =>
    refine Action.ending_bind rfl fun x u u' hu hm => ?_
    have hset := Settings.accepted_of_changeParameters hu
    rw [hset.changeParameters] at hu
    cases hu
    refine BuildArguments.build_jobs (a := { a with settings := s }) hs hset hv hv' hm ?_
    refine hlimit.imp id fun h => congrArg _ (s.inForce_eq (h.imp ?_ id))
    rintro ⟨s', hs', hpos⟩
    cases hs'
    exact hpos

/-! ### A time limit that is left on the model -/

/-- An exact solver, which a time limit below a microsecond stops at once. -/
noncomputable def Solver.punctual : Solver Rat := .unless (fun _ m => m.parameters.expired) .ideal

theorem exactUnless_punctual : Solver.punctual.ExactUnless fun limit _ => limit < 1e-6 :=
  exact_ideal.unless fun limit _ => limit < 1e-6

theorem punctual_of_not_expired {m : Model Rat} (k : Nat) (h : m.parameters.expired = false) :
    Solver.punctual k m = Solver.ideal k m := if_neg (Bool.not_eq_true _ ▸ h)

/-- A model without anything in it but a time limit that is over at once. -/
def Workspace.hurried : Workspace Rat :=
  .ofModel { Model.empty "model" with parameters := { Parameters.default with timeLimit := 1e-9 } }

/-- Settings with a limit govern one job and two jobs alike. -/
theorem jobs_neutral_absolute :
    ∃ f w' w'', formulateNetwork .punctual (some { Settings.default with timeLimit := 60 })
        { BuildArguments.absolute "standard" with jobs := .int 1 } .hurried = .ok f w' ∧
      formulateNetwork .punctual (some { Settings.default with timeLimit := 60 })
        { BuildArguments.absolute "standard" with jobs := .int 2 } .hurried = .ok f w'' ∧
      w''.model = w'.model := by
  have hbuild : Action.succeeds (formulateNetwork .punctual (some { Settings.default with timeLimit := 60 })
      { BuildArguments.absolute "standard" with jobs := .int 1 }) .hurried = true := by decide +kernel
  obtain ⟨f, w', h⟩ := Action.exists_of_succeeds hbuild
  have hjobs : ∀ fault, Jobs.ofValue (.int 1) ≠ .none fault := nofun
  have hjobs' : ∀ fault, Jobs.ofValue (.int 2) ≠ .none fault := nofun
  obtain ⟨w'', h', hm⟩ := Action.ok_of_ending h
    (jobs_neutral exactUnless_punctual hjobs hjobs' (.inr (.inl ⟨_, rfl, by decide +kernel⟩)))
  exact ⟨f, w', w'', h, h', hm⟩

/-- Optimisation over the box bounds the absolute value by one. -/
theorem bound_absolute {solver : Solver Rat} {settings : Option Settings} {v : Value} {f : Formulation Rat}
    {w w' : Workspace Rat} (hs : solver.Exact) (hrelax : (settings.getD .default).relax = false)
    (hvars : w.model.vars = []) (hrows : w.model.rows = [])
    (h : formulateNetwork solver settings { BuildArguments.absolute "standard" with jobs := v } w = .ok f w') :
    at? f.table (1, 0) = some ⟨1, 0⟩ := by
  obtain ⟨r, w₀, hreq, hw₀, h⟩ := formulateNetwork_eq_ok h
  have hasks := request_eq_ok hreq
  obtain ⟨hr, hgiven⟩ := hasks.of_absent rfl rfl
  have hsettings : r.settings = settings.getD .default := (request_settings hreq).1
  rw [← hsettings] at hrelax
  have hvars₀ : w₀.model.vars = [] := by
    rw [hw₀]
    exact hvars
  have hrows₀ : w₀.model.rows = [] := by
    rw [hw₀]
    exact hrows
  have hmode : Mode.ofValue (.text "standard") = .ok .standard := by decide +kernel
  obtain ⟨hwidths, hspans⟩ := hasks.standard_exact hs hrelax hgiven hr hvars₀ hrows₀ hmode h
  rw [← Except.ok.inj hasks.network] at hwidths hspans
  obtain ⟨i, hi⟩ : ∃ i, at? f.table (1, 0) = some i := by
    refine exists_at? (n := 1) ?_ Nat.zero_lt_one
    rw [hwidths]
    rfl
  rw [hi, spans_absolute (hspans _ i hi)]

/-- Without settings, a limit that is left on the model stops the solves in place only. One job then leaves
the output the bound that goes through the intervals, and two jobs find the exact one. -/
theorem jobs_split_absolute :
    ∃ f f' w' w'', formulateNetwork .punctual none
        { BuildArguments.absolute "standard" with jobs := .int 1 } .hurried = .ok f w' ∧
      formulateNetwork .punctual none
        { BuildArguments.absolute "standard" with jobs := .int 2 } .hurried = .ok f' w'' ∧
      f.table = [[⟨1, -1⟩, ⟨1, -1⟩], [⟨2, 0⟩]] ∧ at? f'.table (1, 0) = some ⟨1, 0⟩ := by
  have hplace : (match formulateNetwork .punctual none
        { BuildArguments.absolute "standard" with jobs := .int 1 } .hurried with
      | .ok f _ => decide (f.table = [[⟨1, -1⟩, ⟨1, -1⟩], [⟨2, 0⟩]])
      | _ => false) = true := by decide +kernel
  have hcopies : Action.succeeds (formulateNetwork .punctual none
      { BuildArguments.absolute "standard" with jobs := .int 2 }) .hurried = true := by decide +kernel
  obtain ⟨f', w'', h'⟩ := Action.exists_of_succeeds hcopies
  -- on copies, which have no limit, the solver is the exact one
  have hcopied : ((Jobs.ofValue (.int 2)).parameters .default Workspace.hurried.model.parameters).expired =
      false := by decide +kernel
  have halike : Solver.punctual.AlikeUnder
      ((Jobs.ofValue (.int 2)).parameters .default Workspace.hurried.model.parameters) .ideal := by
    intro k k' m hm
    exact punctual_of_not_expired k (hm ▸ hcopied)
  obtain ⟨w₃, hideal, -⟩ : ∃ w₃, formulateNetwork .ideal none
      { BuildArguments.absolute "standard" with jobs := .int 2 } .hurried = .ok f' w₃ ∧ _ :=
    Action.ok_of_ending h' (BuildArguments.build_ending rfl halike)
  split at hplace
  · rename_i f w' h
    exact ⟨f, f', w', w'', h, h', of_decide_eq_true hplace, bound_absolute exact_ideal rfl rfl rfl hideal⟩
  · cases hplace

end ReluMilp
