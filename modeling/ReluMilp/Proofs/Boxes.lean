import ReluMilp.Proofs.Succeeding

/-!
# Arguments for a box

What callers give who know a network and a box for its inputs, and nothing about its layers.

* `BuildArguments.OnBox` — such arguments, in any mode;
* `OnBox.of_asks` — what a request takes over from them;
* `box_of_le`, `OnBox.exists_request` — a box whose bounds do not cross is accepted;
* `BuildArguments.Ready`, `OnBox.formulated` — the network is formulated if the settings and the jobs are
  taken and all names fit.
-/

namespace ReluMilp

/-! ### Requests -/

section Requests

variable {α : Type}

/-- Arguments for a network on a box, without given bounds. -/
structure BuildArguments.OnBox (a : BuildArguments α) (n : Network α) (us ls : List α) : Prop where
  network : a.network = .ok n
  upper : Reads a.inputUpper n.inputs us
  lower : Reads a.inputLower n.inputs ls
  boundsUpper : a.boundsUpper = .absent
  boundsLower : a.boundsLower = .absent

namespace BuildArguments.OnBox

variable {a : BuildArguments α} {n : Network α} {us ls : List α}

theorem faithful (h : a.OnBox n us ls) : a.Faithful := faithful_of_absent h.boundsUpper h.boundsLower

theorem withSettings (h : a.OnBox n us ls) (settings : Settings) :
    ({ a with settings := settings } : BuildArguments α).OnBox n us ls :=
  ⟨h.network, h.upper, h.lower, h.boundsUpper, h.boundsLower⟩

/-- A request is for the network and the box. -/
theorem of_asks [Scalar α] {r : Request α} (h : a.OnBox n us ls) (hasks : a.Asks r) :
    r.network = n ∧ r.given = none ∧ r.box = Interval.ofLists us ls := by
  have hnetwork : r.network = n := Except.ok.inj (hasks.network.symm.trans h.network)
  obtain ⟨us', ls', hus, hls, hbox, -⟩ := hasks.box.bounds
  rw [hnetwork] at hus hls
  refine ⟨hnetwork, (hasks.of_absent h.boundsUpper h.boundsLower).2, ?_⟩
  rw [hbox, h.upper.unique hus, h.lower.unique hls]

end BuildArguments.OnBox

end Requests

/-! ### Accepted boxes -/

theorem box_of_le {us ls : List Rat} (h : List.Forall₂ (· ≤ ·) ls us) :
    BuildArguments.box us ls = .ok (Interval.ofLists us ls) := by
  have hcross : (List.zipWith (fun u l => Scalar.less u l) us ls).any id = false := by
    induction h with
    | nil => rfl
    | cons hle _ ih =>
      rw [List.zipWith_cons_cons, List.any_cons, ih, Bool.or_false]
      exact decide_eq_false (not_lt.2 hle)
  unfold BuildArguments.box
  rw [List.all_eq_true.2 fun a _ => isFinite_rat a, List.all_eq_true.2 fun a _ => isFinite_rat a, hcross]
  rfl

theorem vector_of_reads {α : Type} {which : BoundVector} {n : Nat} {v : Option (Reading α)} {es : List α}
    (h : Reads v n es) : BuildArguments.vector which n v = .ok es := by
  obtain ⟨t, rfl, rfl, hlen⟩ := h
  show (if t.entries.length = n then _ else _) = _
  rw [if_pos hlen]
  rfl

/-- What a build needs beyond an accepted request: settings and jobs that are taken, and names that fit. -/
structure BuildArguments.Ready (a : BuildArguments Rat) (settings : Option Settings) : Prop where
  accepted : (settings.getD .default).Accepted
  jobs : ∀ fault, Jobs.ofValue a.jobs ≠ .none fault
  names : ∀ r, ({ a with settings := settings.getD .default } : BuildArguments Rat).request = .ok r →
    r.NamesFit

namespace BuildArguments.OnBox

variable {a : BuildArguments Rat} {n : Network Rat} {us ls : List Rat} {mode : Mode}

/-- A box whose bounds do not cross is accepted, with bounds on the output if the mode reads them. -/
theorem exists_request (h : a.OnBox n us ls) (hle : List.Forall₂ (· ≤ ·) ls us)
    (hmode : Mode.ofValue a.mode = .ok mode)
    (hrange : mode = .output → ∃ ous ols, Reads a.outputUpper n.outputs ous ∧
      Reads a.outputLower n.outputs ols) : ∃ r, a.request = .ok r := by
  unfold BuildArguments.request
  rw [h.network, hmode, h.boundsUpper, h.boundsLower]
  simp only [vector_of_reads h.upper, vector_of_reads h.lower, box_of_le hle, BuildArguments.table, bind,
    Except.bind]
  cases mode with
  | fast => exact ⟨_, rfl⟩
  | standard => exact ⟨_, rfl⟩
  | output =>
    obtain ⟨ous, ols, hous, hols⟩ := hrange rfl
    simp only [vector_of_reads hous, vector_of_reads hols]
    exact ⟨_, rfl⟩

/-- A network on a box is formulated wherever every solve ends. -/
theorem formulated {solver : Solver Rat} {settings : Option Settings} {w : Workspace Rat}
    (h : a.OnBox n us ls) (hle : List.Forall₂ (· ≤ ·) ls us) (hmode : Mode.ofValue a.mode = .ok mode)
    (hrange : mode = .output → ∃ ous ols, Reads a.outputUpper n.outputs ous ∧
      Reads a.outputLower n.outputs ols)
    (hready : a.Ready settings) (hs : solver.Total) (hm : w.model.WellFormed) :
    ∃ f w', formulateNetwork solver settings a w = .ok f w' := by
  obtain ⟨r, hreq⟩ := (h.withSettings (settings.getD .default)).exists_request hle hmode hrange
  obtain ⟨hsettings, hjobs⟩ := request_settings hreq
  have hsolvable : r.Solvable solver := by
    refine ⟨hs, ?_, ?_⟩
    · rw [hsettings]
      exact hready.accepted
    · rw [hjobs]
      exact hready.jobs
  exact formulateNetwork_succeeds hreq h.faithful hsolvable (hready.names r hreq) hm

end BuildArguments.OnBox

end ReluMilp
