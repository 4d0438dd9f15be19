import ReluMilp.Formulation.Build
import ReluMilp.Proofs.Requests

/-!
# Builds up to the last row

A build first assembles all variables and rows; with bounds on the output, hidden layers are then bounded
again.

* `Request.assemble`, `Request.finish`, `Request.build_eq` — the two parts of a build;
* `layerBounds_eq_ok`, `layerBounds_of_given`, `layerBounds_intervals`, `length_layerBounds` — where the bounds
  of a layer come from, one per neuron;
* `buildHidden_cons`, `buildHidden_added`, `retighten_eq_ok` — hidden layers one after the other;
* `assemble_eq_ok`, `Request.build_table` — the models on the way of an assembly, and the table of a build;
* `Assembles.adds`, `Assembles.stands` — what it adds to a model, and where the network then stands.
-/

namespace ReluMilp

variable {α : Type} [Scalar α]

/-! ### The two parts of a build -/

/-- What stands in a model once all rows are there: the body, and the bounds of the hidden layers and of
the output layer. -/
structure Assembled (α : Type) where
  body : Body
  table : List (List (Interval α))
  bounds : List (Interval α)

/-- All variables and rows of a request in the model. -/
def Request.assemble (solver : Solver α) (r : Request α) : Action α (Assembled α) := do
  let n := r.network
  let inputs ← addFree (layerName r.name "x" 0) n.inputs
  let inputRows ← .commit
    [⟨true, boundDrafts (qualify r.name "input_ub") .le inputs (r.box.map (·.upper))⟩,
      ⟨true, boundDrafts (qualify r.name "input_lb") .ge inputs (r.box.map (·.lower))⟩]
  let stem ← buildHidden solver r 1 inputs false r.box n.hidden
  let k := n.hidden.length + 1
  let is ← layerBounds solver r k stem.last stem.rectified stem.bounds n.output
  let outputs ← addFree (layerName r.name "x" k) n.outputs
  let affine := outputDrafts (layerName r.name "mix" k) outputs n.output stem.last
  let rows ← .commit (⟨true, affine⟩ :: rangeBlocks r.name outputs r.plan)
  let body : Body :=
    { inputs := inputs
      inputRows := inputRows
      hidden := stem.units
      outputs := outputs
      outputRows := rows.take n.outputs
      rangeRows := rows.drop n.outputs }
  return ⟨body, stem.table, is⟩

/-- The formulation of what was assembled, the hidden layers bounded again if outputs are bounded. -/
def Request.finish (solver : Solver α) (r : Request α) (s : Assembled α) : Action α (Formulation α) := do
  match r.plan with
  | .output range =>
    let (units, table) ← retighten solver r 1 s.body.inputs r.network.hidden s.body.hidden s.table
    return ⟨r.network, r.name, .output, table ++ [range], some { s.body with hidden := units }⟩
  | plan => return ⟨r.network, r.name, plan.mode, s.table ++ [s.bounds], some s.body⟩

theorem Request.build_eq (solver : Solver α) (r : Request α) :
    r.build solver = (r.assemble solver >>= r.finish solver) := by
  unfold Request.build Request.assemble Request.finish
  cases r.plan with
  | fast => simp only [bind_assoc, pure_bind]
  | standard => simp only [bind_assoc, pure_bind]
  | output range => simp only [bind_assoc, pure_bind]

/-! ### Bounds of a layer -/

theorem Layer.propagate_eq_ok {l : Layer α} {rectified : Bool} {before is : List (Interval α)}
    (h : l.propagate rectified before = .ok is) :
    before.length = l.inputs ∧ is = l.intervals rectified before := by
  unfold Layer.propagate at h
  split at h
  · rename_i hlen
    cases h
    exact ⟨hlen, rfl⟩
  · cases h

/-- The bounds of a layer are given, or they are those that follow from the layer before, perhaps
improved by optima. The model stays. -/
theorem layerBounds_eq_ok {solver : Solver α} {r : Request α} {k : Nat} {prev : List VarId}
    {rectified : Bool} {before is : List (Interval α)} {l : Layer α} {w w' : Workspace α}
    (h : layerBounds solver r k prev rectified before l w = .ok is w') :
    w'.model = w.model ∧
      ((∃ table ∈ r.given, is = (table[k - 1]?).getD []) ∨
        r.given = none ∧ (is = l.intervals rectified before ∨
          ∃ os, is = improveAll (l.intervals rectified before) os ∧
            List.Forall₂ (fun n o => o.From solver r.settings.relax w.model prev n) l.neurons os)) := by
  unfold layerBounds at h
  cases hg : r.given with
  | some table =>
    rw [hg] at h
    obtain ⟨rfl, rfl⟩ := Action.pure_eq_ok.1 h
    exact ⟨rfl, .inl ⟨table, rfl, rfl⟩⟩
  | none =>
    rw [hg] at h
    obtain ⟨js, v, hstep, h⟩ := Action.bind_eq_ok.1 h
    obtain ⟨hjs, rfl⟩ := Action.ofExcept_eq_ok.1 hstep
    obtain ⟨-, rfl⟩ := Layer.propagate_eq_ok hjs
    cases hp : r.plan with
    | standard =>
      rw [hp] at h
      obtain ⟨hm, hos⟩ := tightenLayer_eq_ok h
      exact ⟨hm, .inr ⟨rfl, .inr hos⟩⟩
    | fast =>
      rw [hp] at h
      obtain ⟨rfl, rfl⟩ := Action.pure_eq_ok.1 h
      exact ⟨rfl, .inr ⟨rfl, .inl rfl⟩⟩
    | output range =>
      rw [hp] at h
      obtain ⟨rfl, rfl⟩ := Action.pure_eq_ok.1 h
      exact ⟨rfl, .inr ⟨rfl, .inl rfl⟩⟩

/-- Given bounds are taken as they are. -/
theorem layerBounds_of_given {solver : Solver α} {r : Request α} {k : Nat} {prev : List VarId}
    {rectified : Bool} {before is : List (Interval α)} {l : Layer α} {table : List (List (Interval α))}
    {w w' : Workspace α} (hgiven : r.given = some table)
    (h : layerBounds solver r k prev rectified before l w = .ok is w') : is = (table[k - 1]?).getD [] := by
  unfold layerBounds at h
  rw [hgiven] at h
  exact (Action.pure_eq_ok.1 h).1.symm

/-- Without given bounds and without optimisation, they are those that follow from the layer before. -/
theorem layerBounds_intervals {solver : Solver α} {r : Request α} {k : Nat} {prev : List VarId}
    {rectified : Bool} {before is : List (Interval α)} {l : Layer α} {w w' : Workspace α}
    (hgiven : r.given = none) (hplan : r.plan ≠ .standard)
    (h : layerBounds solver r k prev rectified before l w = .ok is w') : is = l.intervals rectified before := by
  unfold layerBounds at h
  rw [hgiven] at h
  obtain ⟨js, v, hstep, h⟩ := Action.bind_eq_ok.1 h
  obtain ⟨hjs, rfl⟩ := Action.ofExcept_eq_ok.1 hstep
  obtain ⟨-, rfl⟩ := Layer.propagate_eq_ok hjs
  cases hp : r.plan with
  | standard => exact absurd hp hplan
  | fast =>
    rw [hp] at h
    exact (Action.pure_eq_ok.1 h).1.symm
  | output range =>
    rw [hp] at h
    exact (Action.pure_eq_ok.1 h).1.symm

/-- A given table has, from position `i` on, the widths of some layers. -/
def Request.Fits (r : Request α) (i : Nat) (ls : List (Layer α)) : Prop :=
  ∀ table ∈ r.given, ∀ (j : Nat) l, ls[j]? = some l → ((table[i + j]?).getD []).length = l.outputs

omit [Scalar α] in
theorem Request.Fits.tail {r : Request α} {i : Nat} {l : Layer α} {ls : List (Layer α)}
    (h : r.Fits i (l :: ls)) : r.Fits (i + 1) ls := by
  intro table ht j l' hl
  rw [Nat.add_right_comm, Nat.add_assoc]
  exact h table ht (j + 1) l' hl

omit [Scalar α] in
theorem Request.WellFormed.fits {r : Request α} (h : r.WellFormed) : r.Fits 0 r.network.layers := by
  intro table ht j l hl
  have hlen : (table.map List.length)[j]? = (r.network.layers.map (·.outputs))[j]? := by
    rw [h.given_widths table ht]
    rfl
  rw [List.getElem?_map, List.getElem?_map, hl] at hlen
  rw [Nat.zero_add]
  cases hj : table[j]? with
  | none =>
    rw [hj] at hlen
    cases hlen
  | some is =>
    rw [hj] at hlen
    exact Option.some.inj hlen

omit [Scalar α] in
theorem Request.WellFormed.fits_hidden {r : Request α} (h : r.WellFormed) :
    r.Fits 0 r.network.hidden := by
  intro table ht j l hl
  refine h.fits table ht j l ?_
  show (r.network.hidden ++ [r.network.output])[j]? = some l
  rw [List.getElem?_append_left (List.getElem?_eq_some_iff.1 hl).1]
  exact hl

omit [Scalar α] in
theorem Request.WellFormed.fits_output {r : Request α} (h : r.WellFormed) :
    r.Fits r.network.hidden.length [r.network.output] := by
  intro table ht j l hl
  cases j with
  | succ j => cases hl
  | zero =>
    have hlast : r.network.layers[r.network.hidden.length]? = some l := by
      show (r.network.hidden ++ [r.network.output])[r.network.hidden.length]? = some l
      rw [List.getElem?_append_right le_rfl, Nat.sub_self]
      exact hl
    have hlen := h.fits table ht r.network.hidden.length l hlast
    rw [Nat.zero_add] at hlen
    exact hlen

theorem length_layerBounds {solver : Solver α} {r : Request α} {i : Nat} {prev : List VarId}
    {rectified : Bool} {before is : List (Interval α)} {l : Layer α} {ls : List (Layer α)}
    {w w' : Workspace α} (hr : r.Fits i (l :: ls))
    (h : layerBounds solver r (i + 1) prev rectified before l w = .ok is w') :
    is.length = l.outputs := by
  obtain ⟨-, ⟨table, ht, rfl⟩ | ⟨-, rfl | ⟨os, rfl, hos⟩⟩⟩ := layerBounds_eq_ok h
  · exact hr table ht 0 l rfl
  · exact l.length_intervals rectified before
  · rw [improveAll, List.length_zipWith, l.length_intervals, ← hos.length_eq]
    exact min_self _

/-! ### Hidden layers -/

theorem buildHidden_cons {solver : Solver α} {r : Request α} {k : Nat} {prev : List VarId}
    {rectified : Bool} {before : List (Interval α)} {l : Layer α} {ls : List (Layer α)} {stem : Stem α}
    {w w' : Workspace α} (h : buildHidden solver r k prev rectified before (l :: ls) w = .ok stem w') :
    ∃ is us rest w₁ w₂, layerBounds solver r k prev rectified before l w = .ok is w₁ ∧
      addHidden r.name k prev l is w₁ = .ok us w₂ ∧
      buildHidden solver r (k + 1) (us.map (·.x)) true is ls w₂ = .ok rest w' ∧
      stem = { rest with units := us :: rest.units, table := is :: rest.table } := by
  obtain ⟨is, w₁, his, h⟩ := Action.bind_eq_ok.1 h
  obtain ⟨us, w₂, hus, h⟩ := Action.bind_eq_ok.1 h
  obtain ⟨rest, w₃, hrest, h⟩ := Action.bind_eq_ok.1 h
  obtain ⟨rfl, rfl⟩ := Action.pure_eq_ok.1 h
  exact ⟨is, us, rest, w₁, w₂, his, hus, hrest, rfl⟩

omit [Scalar α] in
theorem Network.checkHidden_succeeds {n : Network α} {k : Nat} (hk : 1 ≤ k) (hn : k ≤ n.hidden.length) :
    n.checkHidden k = .ok () := if_pos ⟨hk, hn⟩

theorem retighten_eq_ok {solver : Solver α} {r : Request α} {k : Nat} {prev : List VarId} {l : Layer α}
    {ls : List (Layer α)} {us : List HiddenUnit} {uss : List (List HiddenUnit)} {is : List (Interval α)}
    {iss : List (List (Interval α))} {q : List (List HiddenUnit) × List (List (Interval α))}
    {w w' : Workspace α} : retighten solver r k prev (l :: ls) (us :: uss) (is :: iss) w = .ok q w' ↔
    ∃ js w₁ us' w₂ uss₂ iss₂, tightenLayer solver r.settings r.jobs prev l is w = .ok js w₁ ∧
      r.network.checkHidden k = .ok () ∧ replaceUnits r.name k 0 us js w₁ = .ok us' w₂ ∧
      retighten solver r (k + 1) (us'.map (·.x)) ls uss iss w₂ = .ok (uss₂, iss₂) w' ∧
      q = (us' :: uss₂, js :: iss₂) := by
  constructor
  · intro h
    obtain ⟨js, w₁, hjs, h⟩ := Action.bind_eq_ok.1 h
    obtain ⟨u, w₁', hok, h⟩ := Action.bind_eq_ok.1 h
    obtain ⟨hcheck, rfl⟩ := Action.ofExcept_eq_ok.1 hok
    obtain ⟨us', w₂, hus, h⟩ := Action.bind_eq_ok.1 h
    obtain ⟨⟨uss₂, iss₂⟩, w₃, hrest, h⟩ := Action.bind_eq_ok.1 h
    obtain ⟨rfl, rfl⟩ := Action.pure_eq_ok.1 h
    exact ⟨js, w₁, us', w₂, uss₂, iss₂, hjs, hcheck, hus, hrest, rfl⟩
  · rintro ⟨js, w₁, us', w₂, uss₂, iss₂, hjs, hcheck, hus, hrest, rfl⟩
    refine Action.bind_eq_ok.2 ⟨js, w₁, hjs, ?_⟩
    refine Action.bind_eq_ok.2 ⟨(), w₁, Action.ofExcept_eq_ok.2 ⟨hcheck, rfl⟩, ?_⟩
    refine Action.bind_eq_ok.2 ⟨us', w₂, hus, ?_⟩
    exact Action.bind_eq_ok.2 ⟨(uss₂, iss₂), w', hrest, rfl⟩

/-- Hidden layers that are built stand in the model, and the next layer reads the last of them. -/
theorem buildHidden_added {solver : Solver α} {r : Request α} {i : Nat} {prev : List VarId}
    {rectified : Bool} {before : List (Interval α)} {ls : List (Layer α)} {stem : Stem α}
    {w w' : Workspace α} (hprev : ∀ id ∈ prev, id < w.model.nextVar) (hr : r.Fits i ls)
    (h : buildHidden solver r (i + 1) prev rectified before ls w = .ok stem w') :
    HiddenAdded w.model w'.model prev ls stem.units stem.table ∧
      stem.last = lastVars prev stem.units ∧ ∀ id ∈ stem.last, id < w'.model.nextVar := by
  induction ls generalizing i prev rectified before stem w with
  | nil =>
    obtain ⟨rfl, rfl⟩ := Action.pure_eq_ok.1 h
    exact ⟨.nil, rfl, hprev⟩
  | cons l ls ih =>
    obtain ⟨is, us, rest, w₁, w₂, his, hus, hrest, rfl⟩ := buildHidden_cons h
    have hm₁ := (layerBounds_eq_ok his).1
    have hlayer : LayerAdded w₁.model w₂.model prev l us is := by
      refine addHidden_added ?_ (length_layerBounds hr his) hus
      rw [hm₁]
      exact hprev
    have hnext : ∀ id ∈ us.map (·.x), id < w₂.model.nextVar :=
      fun id hid => (hlayer.adds.vars_new (mem_xs_unitVars hid)).2
    obtain ⟨hadded, hlast, hlt⟩ := ih hnext hr.tail hrest
    rw [hm₁] at hlayer
    exact ⟨hlayer.cons hadded, hlast, hlt⟩

/-! ### Assemblies -/

/-- The rows that bound the inputs of a request. -/
def Request.boxDrafts (r : Request α) (inputs : List VarId) : List (RowDraft α) :=
  boundDrafts (qualify r.name "input_ub") .le inputs (r.box.map (·.upper)) ++
    boundDrafts (qualify r.name "input_lb") .ge inputs (r.box.map (·.lower))

/-- The rows that bound the outputs of a request. -/
def Request.rangeDrafts (r : Request α) (outputs : List VarId) : List (RowDraft α) :=
  (rangeBlocks r.name outputs r.plan).flatMap (·.rows)

/-- The workspaces on the way of an assembly: with inputs and their bounds, with hidden layers, and with
everything. -/
structure Request.Assembles (solver : Solver α) (r : Request α) (s : Assembled α) (stem : Stem α)
    (w w₁ w₂ w' : Workspace α) : Prop where
  inputs : s.body.inputs = List.range' w.model.nextVar r.network.inputs
  boxed : ∃ t, w₁.model =
    (w.model.withVars (elementNames t r.network.inputs) .continuous .negInf .posInf).withRows
      (r.boxDrafts s.body.inputs)
  input_rows : s.body.inputRows = List.range' w.model.nextRow (r.boxDrafts s.body.inputs).length
  hidden : buildHidden solver r 1 s.body.inputs false r.box r.network.hidden w₁ = .ok stem w₂
  units : s.body.hidden = stem.units
  table : s.table = stem.table
  bounds : ∃ v, layerBounds solver r (r.network.hidden.length + 1) stem.last stem.rectified stem.bounds
    r.network.output w₂ = .ok s.bounds v
  outputs : s.body.outputs = List.range' w₂.model.nextVar r.network.outputs
  finished : ∃ t t', w'.model =
    (w₂.model.withVars (elementNames t r.network.outputs) .continuous .negInf .posInf).withRows
      (outputDrafts t' s.body.outputs r.network.output stem.last ++ r.rangeDrafts s.body.outputs)
  output_rows : s.body.outputRows = List.range' w₂.model.nextRow r.network.outputs
  range_rows : s.body.rangeRows = List.range' (w₂.model.nextRow + r.network.outputs)
    (r.rangeDrafts s.body.outputs).length

theorem length_outputDrafts {t : String} {xs prev : List VarId} {l : Layer α}
    (hx : xs.length = l.outputs) : (outputDrafts t xs l prev).length = l.outputs := by
  have hn : l.neurons.length = l.outputs := rfl
  rw [outputDrafts, List.length_zipWith, length_elementNames, List.length_zip, hx, hn, min_self, min_self]

/-- The workspaces on the way of an assembly, with the names of variables and rows. -/
structure Request.Spells (solver : Solver α) (r : Request α) (s : Assembled α) (stem : Stem α)
    (w w₁ w₂ w' : Workspace α) : Prop extends r.Assembles solver s stem w w₁ w₂ w' where
  boxed_eq : w₁.model = (w.model.withVars (elementNames (layerName r.name "x" 0) r.network.inputs)
    .continuous .negInf .posInf).withRows (r.boxDrafts s.body.inputs)
  finished_eq : w'.model = (w₂.model.withVars
    (elementNames (layerName r.name "x" (r.network.hidden.length + 1)) r.network.outputs)
    .continuous .negInf .posInf).withRows
      (outputDrafts (layerName r.name "mix" (r.network.hidden.length + 1)) s.body.outputs r.network.output
        stem.last ++ r.rangeDrafts s.body.outputs)

theorem assemble_spells {solver : Solver α} {r : Request α} {s : Assembled α} {w w' : Workspace α}
    (h : r.assemble solver w = .ok s w') : ∃ stem w₁ w₂, r.Spells solver s stem w w₁ w₂ w' := by
  obtain ⟨inputs, v₁, hinputs, h⟩ := Action.bind_eq_ok.1 h
  obtain ⟨inputRows, v₂, hbox, h⟩ := Action.bind_eq_ok.1 h
  obtain ⟨stem, v₃, hstem, h⟩ := Action.bind_eq_ok.1 h
  obtain ⟨is, v₄, his, h⟩ := Action.bind_eq_ok.1 h
  obtain ⟨outputs, v₅, houtputs, h⟩ := Action.bind_eq_ok.1 h
  obtain ⟨rows, v₆, hrows, h⟩ := Action.bind_eq_ok.1 h
  obtain ⟨rfl, rfl⟩ := Action.pure_eq_ok.1 h
  obtain ⟨hm₁, rfl⟩ := addVector_eq_ok hinputs
  obtain ⟨hm₂, hr₂⟩ := Action.commit_eq_ok hbox
  have hm₄ := (layerBounds_eq_ok his).1
  obtain ⟨hm₅, houts⟩ := addVector_eq_ok houtputs
  obtain ⟨hm₆, hr₆⟩ := Action.commit_eq_ok hrows
  rw [List.flatMap_cons] at hm₆ hr₆
  rw [hm₄] at houts hm₅
  rw [hm₁] at hm₂ hr₂
  rw [hm₅] at hm₆ hr₆
  have hlen : outputs.length = r.network.output.outputs := by
    rw [houts, List.length_range']
    rfl
  have hsplit : rows = List.range' v₃.model.nextRow r.network.outputs ++
      List.range' (v₃.model.nextRow + r.network.outputs) (r.rangeDrafts outputs).length := by
    rw [List.range'_append_1, hr₆, List.length_append, length_outputDrafts hlen]
    rfl
  have hdrafts : ∀ inputs, ([⟨true, boundDrafts (qualify r.name "input_ub") .le inputs
      (r.box.map (·.upper))⟩, ⟨true, boundDrafts (qualify r.name "input_lb") .ge inputs
      (r.box.map (·.lower))⟩] : List (RowBlock α)).flatMap (·.rows) = r.boxDrafts inputs := by
    intro inputs
    rw [List.flatMap_cons, List.flatMap_cons, List.flatMap_nil, List.append_nil]
    rfl
  rw [hdrafts] at hm₂ hr₂
  refine ⟨stem, v₂, v₃, ⟨rfl, ⟨_, hm₂⟩, hr₂, hstem, rfl, rfl, ⟨v₄, his⟩, houts, ⟨_, _, hm₆⟩, ?_, ?_⟩,
    hm₂, hm₆⟩
  · show rows.take r.network.outputs = _
    rw [hsplit]
    exact List.take_left' (List.length_range' ..)
  · show rows.drop r.network.outputs = _
    rw [hsplit]
    exact List.drop_left' (List.length_range' ..)

theorem assemble_eq_ok {solver : Solver α} {r : Request α} {s : Assembled α} {w w' : Workspace α}
    (h : r.assemble solver w = .ok s w') : ∃ stem w₁ w₂, r.Assembles solver s stem w w₁ w₂ w' := by
  obtain ⟨stem, w₁, w₂, hs⟩ := assemble_spells h
  exact ⟨stem, w₁, w₂, hs.toAssembles⟩

/-- Without bounds on the output, the table of a build is that of its assembly. -/
theorem Request.build_table {solver : Solver α} {r : Request α} {f : Formulation α} {w w' : Workspace α}
    (hplan : ∀ range, r.plan ≠ .output range) (h : r.build solver w = .ok f w') :
    ∃ s stem w₁ w₂ w₃, r.Assembles solver s stem w w₁ w₂ w₃ ∧ f.table = s.table ++ [s.bounds] := by
  rw [r.build_eq] at h
  obtain ⟨s, w₃, hass, h⟩ := Action.bind_eq_ok.1 h
  obtain ⟨stem, w₁, w₂, hass⟩ := assemble_eq_ok hass
  unfold Request.finish at h
  cases hp : r.plan with
  | output range => exact absurd hp (hplan range)
  | fast =>
    rw [hp] at h
    obtain ⟨rfl, -⟩ := Action.pure_eq_ok.1 h
    exact ⟨s, stem, w₁, w₂, w₃, hass, rfl⟩
  | standard =>
    rw [hp] at h
    obtain ⟨rfl, -⟩ := Action.pure_eq_ok.1 h
    exact ⟨s, stem, w₁, w₂, w₃, hass, rfl⟩

section Terms

variable {t : String} {sense : Sense} {xs prev : List VarId} {bs : List α} {l : Layer α}
  {d : RowDraft α} {u : Term α}

theorem terms_boundDrafts (hd : d ∈ boundDrafts t sense xs bs) (hu : u ∈ d.terms) : u.var ∈ xs := by
  unfold boundDrafts at hd
  obtain ⟨i, hi⟩ := List.mem_iff_getElem?.1 hd
  obtain ⟨e, ⟨v, b⟩, _, hp, rfl⟩ := List.getElem?_zipWith_eq_some.1 hi
  rw [List.mem_singleton.1 hu]
  exact (List.of_mem_zip (List.mem_of_getElem? hp)).1

theorem terms_outputDrafts (hd : d ∈ outputDrafts t xs l prev) (hu : u ∈ d.terms) :
    u.var ∈ xs ++ prev := by
  unfold outputDrafts at hd
  obtain ⟨i, hi⟩ := List.mem_iff_getElem?.1 hd
  obtain ⟨e, ⟨v, n⟩, _, hp, rfl⟩ := List.getElem?_zipWith_eq_some.1 hi
  rw [List.mem_append]
  rcases List.mem_cons.1 hu with rfl | hu
  · exact .inl (List.of_mem_zip (List.mem_of_getElem? hp)).1
  · exact .inr (mem_negatedTerms hu)

theorem getElem?_outputDrafts {i : Nat} {x : VarId} {n : Neuron α} (t : String) (prev : List VarId)
    (hx : xs[i]? = some x) (hn : l.neurons[i]? = some n) :
    (outputDrafts t xs l prev)[i]? = some (outputDraft (t ++ "[" ++ toString i ++ "]") x n prev) := by
  have hi : i < l.outputs := (List.getElem?_eq_some_iff.1 hn).1
  have hp : (xs.zip l.neurons)[i]? = some (x, n) := List.getElem?_zip_eq_some.2 ⟨hx, hn⟩
  unfold outputDrafts
  rw [List.getElem?_zipWith, getElem?_elementNames t hi, hp]

theorem terms_boxDrafts {r : Request α} (hd : d ∈ r.boxDrafts xs) (hu : u ∈ d.terms) : u.var ∈ xs := by
  rcases List.mem_append.1 hd with hd | hd
  · exact terms_boundDrafts hd hu
  · exact terms_boundDrafts hd hu

theorem terms_rangeDrafts {r : Request α} (hd : d ∈ r.rangeDrafts xs) (hu : u ∈ d.terms) :
    u.var ∈ xs := by
  unfold Request.rangeDrafts rangeBlocks at hd
  split at hd
  · rw [List.flatMap_cons, List.flatMap_singleton] at hd
    rcases List.mem_append.1 hd with hd | hd
    · exact terms_boundDrafts hd hu
    · exact terms_boundDrafts hd hu
  · exact absurd hd List.not_mem_nil

end Terms

section Assembles

variable {solver : Solver α} {r : Request α} {s : Assembled α} {stem : Stem α} {w w₁ w₂ w' : Workspace α}

theorem addFree_withRows (m : Model α) (t : String) (n : Nat) (drafts : List (RowDraft α))
    (h : ∀ d ∈ drafts, ∀ u ∈ d.terms, u.var < m.nextVar + n) :
    m.Adds ((m.withVars (elementNames t n) .continuous .negInf .posInf).withRows drafts)
      (List.range' m.nextVar n) (List.range' m.nextRow drafts.length) := by
  have hv := adds_withVars m (elementNames t n) .continuous .negInf .posInf
  have hr := adds_withRows (m.withVars (elementNames t n) .continuous .negInf .posInf) drafts (by
    intro d hd u hu
    show u.var < m.nextVar + (elementNames t n).length
    rw [length_elementNames]
    exact h d hd u hu)
  rw [length_elementNames] at hv
  have hvr := hv.trans hr
  rw [List.append_nil] at hvr
  exact hvr

theorem free_withRows (m : Model α) (t : String) (n : Nat) (drafts : List (RowDraft α)) :
    FreeStand ((m.withVars (elementNames t n) .continuous .negInf .posInf).withRows drafts)
      (List.range' m.nextVar n) := by
  intro id hid
  have hid' : id ∈ List.range' m.nextVar (elementNames t n).length := by
    rw [length_elementNames]
    exact hid
  exact mem_withVars m (elementNames t n) .continuous .negInf .posInf hid'

theorem Request.Assembles.adds_inputs (h : r.Assembles solver s stem w w₁ w₂ w') :
    w.model.Adds w₁.model s.body.inputs s.body.inputRows := by
  obtain ⟨t, ht⟩ := h.boxed
  rw [ht, h.input_rows, h.inputs]
  apply addFree_withRows
  intro d hd u hu
  exact (List.mem_range'_1.1 (terms_boxDrafts hd hu)).2

theorem Request.Assembles.hidden_added (h : r.Assembles solver s stem w w₁ w₂ w')
    (hr : r.WellFormed) : HiddenAdded w₁.model w₂.model s.body.inputs r.network.hidden s.body.hidden s.table ∧
      stem.last = lastVars s.body.inputs s.body.hidden ∧ ∀ id ∈ stem.last, id < w₂.model.nextVar := by
  rw [h.units, h.table]
  exact buildHidden_added (fun id hid => (h.adds_inputs.vars_new hid).2) hr.fits_hidden h.hidden

theorem Request.Assembles.adds_outputs (h : r.Assembles solver s stem w w₁ w₂ w')
    (hr : r.WellFormed) :
    w₂.model.Adds w'.model s.body.outputs (s.body.outputRows ++ s.body.rangeRows) := by
  obtain ⟨t, t', ht⟩ := h.finished
  have hlast := (h.hidden_added hr).2.2
  have hout : s.body.outputs.length = r.network.output.outputs := by
    rw [h.outputs, List.length_range']
    rfl
  have hrows : s.body.outputRows ++ s.body.rangeRows = List.range' w₂.model.nextRow
      (outputDrafts t' s.body.outputs r.network.output stem.last ++
        r.rangeDrafts s.body.outputs).length := by
    rw [h.output_rows, h.range_rows, List.range'_append_1, List.length_append, length_outputDrafts hout]
    rfl
  have hnew : ∀ id ∈ s.body.outputs, id < w₂.model.nextVar + r.network.outputs := by
    intro id hid
    rw [h.outputs] at hid
    exact (List.mem_range'_1.1 hid).2
  rw [hrows, ht]
  conv => arg 3; rw [h.outputs]
  apply addFree_withRows
  intro d hd u hu
  rcases List.mem_append.1 hd with hd | hd
  · rcases List.mem_append.1 (terms_outputDrafts hd hu) with hid | hid
    · exact hnew _ hid
    · exact Nat.lt_add_right _ (hlast _ hid)
  · exact hnew _ (terms_rangeDrafts hd hu)

/-- An assembly adds the variables and the rows of its body. -/
theorem Request.Assembles.adds (h : r.Assembles solver s stem w w₁ w₂ w') (hr : r.WellFormed) :
    w.model.Adds w'.model s.body.vars s.body.rows := by
  have hadds := (h.adds_inputs.trans (h.hidden_added hr).1.adds).trans (h.adds_outputs hr)
  rw [← List.append_assoc] at hadds
  exact hadds

/-- The network of an assembly stands in the model. -/
theorem Request.Assembles.stands (h : r.Assembles solver s stem w w₁ w₂ w') (hr : r.WellFormed) :
    s.body.Stands w'.model r.network s.table := by
  obtain ⟨hhid, hlast, -⟩ := h.hidden_added hr
  have hout := h.adds_outputs hr
  have hkeep : w₁.model.Keeps w'.model [] := (hhid.adds.trans hout).keeps
  have hadds := h.adds hr
  have hlen : s.body.outputs.length = r.network.output.outputs := by
    rw [h.outputs, List.length_range']
    rfl
  refine ⟨?_, ?_, ?_, ?_, ?_, hadds.vars_nodup, hadds.rows_nodup,
    fun id hid => (hadds.rows_new hid).2⟩
  · obtain ⟨t, ht⟩ := h.boxed
    have hfree := free_withRows w.model t r.network.inputs (r.boxDrafts s.body.inputs)
    rw [← ht, ← h.inputs] at hfree
    exact hfree.keep hkeep
  · rw [h.inputs, List.length_range']
  · exact hhid.stands.imp fun p n u i _ hu =>
      hu.keep hout.keeps List.not_mem_nil List.not_mem_nil List.not_mem_nil
  · obtain ⟨t, t', ht⟩ := h.finished
    have hfree := free_withRows w₂.model t r.network.outputs
      (outputDrafts t' s.body.outputs r.network.output stem.last ++ r.rangeDrafts s.body.outputs)
    rw [← ht, ← h.outputs] at hfree
    exact hfree
  · obtain ⟨t, t', ht⟩ := h.finished
    rw [← hlast]
    refine Forall₃.of_getElem? hlen ?_ ?_
    · rw [h.output_rows, List.length_range']
      rfl
    · intro i n x row hn hx hrow
      have hd := getElem?_outputDrafts t' stem.last hx hn
      obtain ⟨hi, rfl⟩ : i < r.network.outputs ∧ w₂.model.nextRow + i = row := by
        rw [h.output_rows] at hrow
        obtain ⟨hi, hrow⟩ := List.getElem?_eq_some_iff.1 hrow
        rw [List.length_range'] at hi
        rw [List.getElem_range', Nat.one_mul] at hrow
        exact ⟨hi, hrow⟩
      refine ⟨t' ++ "[" ++ toString i ++ "]", ?_⟩
      rw [ht]
      refine mem_withRows (w₂.model.withVars _ _ _ _) ?_
      rw [List.getElem?_append_left (by rw [length_outputDrafts hlen]; exact hi)]
      exact hd

end Assembles

end ReluMilp
