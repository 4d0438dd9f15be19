import ReluMilp.Proofs.Attainment
import ReluMilp.Proofs.Mirroring

/-!
# Returned bounds reproduce the model

A network that is built again with the table of its first build.

* `Solver.Exact.gives_congr`, `tightenLayer_repeats` — what an exact solver gives depends on nothing but the
  feasible assignments, and a layer that was improved with it stays as it is;
* `retighten_feasible_iff` — the rows of a returned table admit what those of the first one admit;
* `retighten_repeats` — with bounds on the output, the hidden layers are bounded again with the same results,
  and their rows are made in the same order;
* `Request.build_repeats` — whole builds;
* `BuildArguments.withTable`, `request_withTable` — a table that was returned is accepted;
* `returned_table_reproduces` — the second build.
-/

namespace ReluMilp

/-! ### Optima over the same assignments -/

section Optima

variable {solver : Solver Rat} {m m' : Model Rat} {w w₁ v : Workspace Rat}

theorem feasible_setObjective {e : Linear Rat} {maximize : Bool} (h : m.setObjective e maximize = .ok m')
    (x : Assignment Rat) : m'.Feasible x ↔ m.Feasible x := by
  rw [setObjective_eq_ok h]
  rfl

theorem objective_setObjective {m₁ m₁' : Model Rat} {e : Linear Rat} {maximize : Bool}
    (h : m.setObjective e maximize = .ok m₁) (h' : m'.setObjective e maximize = .ok m₁') :
    m₁.objective = m₁'.objective := by
  unfold Model.setObjective at h h'
  split at h
  · rename_i hfinite
    rw [if_pos hfinite] at h'
    cases h
    cases h'
    rfl
  · cases h

/-- What an exact solver gives depends on nothing but the feasible assignments. -/
theorem Solver.Exact.gives_congr (hs : solver.Exact) {e : Linear Rat} {maximize : Bool} {o o' : Option Rat}
    (hfeas : ∀ x, m.Feasible x ↔ m'.Feasible x) (h : solver.Gives m e maximize o)
    (h' : solver.Gives m' e maximize o') : o = o' := by
  obtain ⟨k, m₁, r, hset, hr, rfl⟩ := h
  obtain ⟨k', m₁', r', hset', hr', rfl⟩ := h'
  obtain ⟨q, hq, hexact⟩ := hs k m₁
  obtain ⟨q', hq', hexact'⟩ := hs k' m₁'
  rw [hr] at hq
  rw [hr'] at hq'
  cases hq
  cases hq'
  refine hexact.optimum?_congr hexact' (fun x => ?_) (objective_setObjective hset hset')
  rw [feasible_setObjective hset, feasible_setObjective hset', hfeas]

theorem Optima.From.congr (hs : solver.Exact) {prev : List VarId} {n : Neuron Rat} {o o' : Optima Rat}
    (hfeas : ∀ x, m.Feasible x ↔ m'.Feasible x) (h : o.From solver false m prev n)
    (h' : o'.From solver false m' prev n) : o = o' := by
  obtain ⟨m₁, hm₁, hreached⟩ := h
  obtain ⟨m₁', hm₁', hreached'⟩ := h'
  have hsame : ∀ x, m₁.Feasible x ↔ m₁'.Feasible x := fun x => by
    rw [hm₁.feasible_iff, hm₁'.feasible_iff, Model.loosened_false, Model.loosened_false, hfeas]
  have hu := hs.gives_congr hsame hreached.upper hreached'.upper
  have hl := hs.gives_congr hsame hreached.lower hreached'.lower
  cases o
  cases o'
  cases hu
  cases hl
  rfl

theorem optima_congr (hs : solver.Exact) {prev : List VarId} {ns : List (Neuron Rat)} {os os' : List (Optima Rat)}
    (hfeas : ∀ x, m.Feasible x ↔ m'.Feasible x)
    (h : List.Forall₂ (fun n o => o.From solver false m prev n) ns os)
    (h' : List.Forall₂ (fun n o => o.From solver false m' prev n) ns os') : os = os' := by
  induction h generalizing os' with
  | nil =>
    cases h'
    rfl
  | cons ho _ ih =>
    cases h' with
    | cons ho' hrest => rw [ho.congr hs hfeas ho', ih hrest]

/-- Bounds that were improved with optima are not improved by them any further. -/
theorem improveAll_improveAll (is : List (Interval Rat)) (os : List (Optima Rat)) :
    improveAll (improveAll is os) os = improveAll is os := by
  have hone : ∀ (i : Interval Rat) (o : Optima Rat),
      (i.improve o.upper o.lower).improve o.upper o.lower = i.improve o.upper o.lower := by
    intro i o
    rw [improve_eq, improve_eq]
    cases o.upper <;> cases o.lower <;> simp
  unfold improveAll
  induction is generalizing os with
  | nil => rfl
  | cons i is ih =>
    cases os with
    | nil => rfl
    | cons o os => rw [List.zipWith_cons_cons, List.zipWith_cons_cons, hone, ih]

theorem jobs_of_tightenLayer {s : Settings} {jobs : Jobs} {prev : List VarId} {l : Layer Rat}
    {is js : List (Interval Rat)} (h : tightenLayer solver s jobs prev l is w = .ok js w₁) (f : Fault) :
    jobs ≠ .none f := by
  rintro rfl
  obtain ⟨os, w₂, hos, -⟩ := Action.bind_eq_ok.1 h
  obtain ⟨u, w₃, -, hthrow⟩ := Action.bind_eq_ok.1 hos
  exact Action.throw_ne_ok hthrow

/-- A layer that was tightened is tightened with the same result again, on any model with the same feasible
assignments. -/
theorem tightenLayer_repeats (hs : solver.Exact) {s : Settings} {jobs : Jobs} {prev : List VarId} {l : Layer Rat}
    {is js : List (Interval Rat)} (hrelax : s.relax = false) (hset : s.Accepted) (hprev : v.model.HasVars prev)
    (hlen : l.inputs = prev.length) (hfeas : ∀ x, w.model.Feasible x ↔ v.model.Feasible x)
    (h : tightenLayer solver s jobs prev l is w = .ok js w₁) :
    ∃ v₁, tightenLayer solver s jobs prev l js v = .ok js v₁ ∧ v₁.model = v.model := by
  obtain ⟨js', v₁, h'⟩ := tightenLayer_succeeds (w := v) hs.total (fun _ => hset) (jobs_of_tightenLayer h) hprev
    hlen js
  obtain ⟨-, os, rfl, hos⟩ := tightenLayer_eq_ok h
  obtain ⟨hm₁, os', rfl, hos'⟩ := tightenLayer_eq_ok h'
  rw [hrelax] at hos hos'
  have heq := optima_congr hs hfeas hos hos'
  subst heq
  rw [improveAll_improveAll] at h'
  exact ⟨v₁, h', hm₁⟩

end Optima

/-! ### The rows of a returned table -/

section Layers

variable {solver : Solver Rat} {r : Request Rat} {n : Network Rat} {b : Body} {name : Value} {k : Nat}
  {prev : List VarId} {lpre ls : List (Layer Rat)} {l out : Layer Rat} {us us' : List HiddenUnit}
  {pre uss uss' : List (List HiddenUnit)} {js : List (Interval Rat)} {tpre iss iss' : List (List (Interval Rat))}
  {w w' v v' : Workspace Rat}

theorem replacedAt_self (js : List (Interval Rat)) (us : List HiddenUnit) (p : HiddenUnit → Rat)
    (hlen : js.length = us.length) : Forall₃ (fun u d j => d.ReplacedAt j (p u)) us js js := by
  refine .of_getElem? hlen hlen fun i u d j _ hd hj => ?_
  rw [hd] at hj
  cases hj
  exact ⟨.inl rfl, .inl rfl⟩

/-- Rows that are exchanged for those of the same intervals admit the same. -/
theorem replaceUnits_same (hn : n.hidden = lpre ++ l :: ls) (hl : lpre.length = pre.length)
    (ht : tpre.length = pre.length) (hm : v.model.WellFormed)
    (hb : (b.withHidden (pre ++ us :: uss)).Stands v.model n (tpre ++ js :: iss))
    (h : replaceUnits name k 0 us js v = .ok us' v') :
    v'.model.WellFormed ∧ (b.withHidden ((pre ++ [us']) ++ uss)).Stands v'.model n ((tpre ++ [js]) ++ iss) ∧
      ∀ x, v'.model.Feasible x ↔ v.model.Feasible x := by
  have hlayer := hb.first hn hl ht
  have hlen : js.length = us.length := hlayer.length_right.trans hlayer.length_middle.symm
  have hstart : ([] : List (Interval Rat)).length = ([] : List HiddenUnit).length := rfl
  obtain ⟨hm', hb'⟩ := replaceUnits_stands ht hstart hlen hlen hm hb h
  rw [List.nil_append, List.nil_append, List.append_cons pre, List.append_cons tpre] at hb'
  have hwithin : List.Forall₂ Interval.Within js js := List.forall₂_same.2 fun _ _ => ⟨le_rfl, le_rfl⟩
  exact ⟨hm', hb', replaceUnits_feasible ht hstart hm hb hwithin (fun x _ => replacedAt_self js us _ hlen) h⟩

theorem Model.AgreesOff.feasible_iff {m m' : Model Rat} (h : m.AgreesOff [] m') (x : Assignment Rat) :
    m'.Feasible x ↔ m.Feasible x := by
  unfold Model.Feasible
  rw [h.vars, h.rows_eq]

/-- The rows of the bounds that a run finds admit what the model after the run admits, although they stand
elsewhere. -/
theorem retighten_feasible_iff (hn : n.hidden = lpre ++ ls) (hl : lpre.length = pre.length)
    (ht : tpre.length = pre.length) (hprev : lastVars b.inputs pre = prev) (hm : w.model.WellFormed)
    (hm' : v.model.WellFormed) (hb : (b.withHidden (pre ++ uss)).Stands w.model n (tpre ++ iss))
    (hb' : (b.withHidden (pre ++ uss)).Stands v.model n (tpre ++ iss'))
    (hagree : w.model.AgreesOff (uss.flatMap Body.switchRows) v.model)
    (h : retighten solver r k prev ls uss iss w = .ok (uss', iss') w') (x : Assignment Rat) :
    w'.model.Feasible x ↔ v.model.Feasible x := by
  induction ls generalizing k prev lpre pre uss uss' tpre iss iss' w v with
  | nil =>
    cases hb.rest hn hl ht
    obtain ⟨heq, rfl⟩ := Action.pure_eq_ok.1 h
    exact (hagree.feasible_iff x).symm
  | cons l ls ih =>
    cases hb.rest hn hl ht with
    | @cons _ _ us _ _ uss _ hlayer _ =>
    obtain ⟨js, w₁, us', w₂, uss₂, iss₂, htighten, -, hunits, hlater, heq⟩ := retighten_eq_ok.1 h
    cases heq
    obtain ⟨os, -, hw₁, -, -, -, -, -, hm₂, hb₂, -⟩ := retighten_layer hn hl ht hprev hm hb htighten hunits
    -- the second model gets the same rows, for intervals that it has already
    have hlayer' := hb'.first hn hl ht
    have hlen : js.length = us.length := hlayer'.length_right.trans hlayer'.length_middle.symm
    rw [← hw₁] at hagree
    obtain ⟨v₂, hunits', hagree₂⟩ := replaceUnits_mirrors _ r.name k 0 hlen w₁ v us' w₂ hagree hunits
    obtain ⟨hm₂', hb₂', hfeas⟩ := replaceUnits_same hn hl ht hm' hb' hunits'
    rw [List.append_cons lpre] at hn
    rw [← hfeas x]
    exact ih hn (length_snoc hl l us') (length_snoc ht js us') (lastVars_append_singleton b.inputs pre us')
      hm₂ hm₂' hb₂ hb₂' hagree₂ hlater

/-! ### Layers bounded again -/

/-- Hidden layers that have the bounds which a run finds, on a model that admits the same, are bounded again
with the same results. All rows that differed are exchanged on the way. -/
theorem retighten_repeats (hs : solver.Exact) (hrelax : r.settings.relax = false) (hset : r.settings.Accepted)
    (table : List (List (Interval Rat))) (hn : n.hidden = lpre ++ ls) (hl : lpre.length = pre.length)
    (ht : tpre.length = pre.length) (hprev : lastVars b.inputs pre = prev) (hchain : Chained (ls ++ [out]))
    (hvars : v.model.HasVars prev) (hlen : (ls.head?.getD out).inputs = prev.length) (hm : w.model.WellFormed)
    (hm' : v.model.WellFormed) (hb : (b.withHidden (pre ++ uss)).Stands w.model n (tpre ++ iss))
    (hb' : (b.withHidden (pre ++ uss)).Stands v.model n (tpre ++ iss'))
    (hagree : w.model.AgreesOff (uss.flatMap Body.switchRows) v.model)
    (hfeas : ∀ x, w.model.Feasible x ↔ v.model.Feasible x)
    (h : retighten solver r k prev ls uss iss w = .ok (uss', iss') w') :
    ∃ v', retighten solver (r.withGiven table) k prev ls uss iss' v = .ok (uss', iss') v' ∧
      w'.model.AgreesOff [] v'.model := by
  induction ls generalizing k prev lpre pre uss uss' tpre iss iss' w v with
  | nil =>
    cases hb.rest hn hl ht
    cases hb'.rest hn hl ht
    obtain ⟨heq, rfl⟩ := Action.pure_eq_ok.1 h
    cases heq
    exact ⟨v, rfl, hagree⟩
  | cons l ls ih =>
    cases hb.rest hn hl ht with
    | @cons _ _ us _ _ uss _ hlayer _ =>
    obtain ⟨js, w₁, us', w₂, uss₂, iss₂, htighten, hcheck, hunits, hlater, heq⟩ := retighten_eq_ok.1 h
    cases heq
    obtain ⟨os, -, hw₁, -, -, hmap, -, -, hm₂, hb₂, hneutral⟩ :=
      retighten_layer hn hl ht hprev hm hb htighten hunits
    -- both models admit the same, so the optima are those of the first run
    obtain ⟨v₁, htighten', hv₁⟩ := tightenLayer_repeats hs hrelax hset hvars hlen hfeas htighten
    have hstands : Forall₃ (HiddenUnit.Stands v.model prev) l.neurons us js := hprev ▸ hb'.first hn hl ht
    have hwidth : js.length = us.length := hstands.length_right.trans hstands.length_middle.symm
    rw [← hw₁, ← hv₁] at hagree
    -- the rows of the layer are exchanged in both models and agree from here on
    obtain ⟨v₂, hunits', hagree₂⟩ := replaceUnits_mirrors _ r.name k 0 hwidth w₁ v₁ us' w₂ hagree hunits
    have hread := map_x_of_map_vars hmap
    have hvars₂ : v₂.model.HasVars (us'.map (·.x)) := by
      intro id hid
      rw [hread] at hid
      rw [(replaceUnits_vars hunits').2.vars, hv₁]
      exact HiddenUnit.Stands.hasVars hstands id hid
    rw [← hv₁] at hm' hb' hfeas
    obtain ⟨hm₂', hb₂', hsame⟩ := replaceUnits_same hn hl ht hm' hb' hunits'
    have hfeas₂ : ∀ x, w₂.model.Feasible x ↔ v₂.model.Feasible x := fun x => by
      rw [hneutral (hs.sound.covers_of_unrelaxed hrelax), hsame, hfeas]
    obtain ⟨hchain', hhead⟩ := hchain.tail
    have hlen₂ : (ls.head?.getD out).inputs = (us'.map (·.x)).length := by
      rw [hhead, hread, List.length_map, hstands.length_middle]
      rfl
    rw [List.append_cons lpre] at hn
    obtain ⟨v', hlater', hagree'⟩ := ih hn (length_snoc hl l us') (length_snoc ht js us')
      (lastVars_append_singleton b.inputs pre us') hchain' hvars₂ hlen₂ hm₂ hm₂' hb₂ hb₂' hagree₂ hfeas₂ hlater
    refine ⟨v', ?_, hagree'⟩
    exact retighten_eq_ok.2 ⟨js, v₁, us', v₂, uss₂, iss₂, htighten', hcheck, hunits', hlater', rfl⟩

end Layers

/-! ### Builds -/

section Builds

variable {solver : Solver Rat} {r : Request Rat} {f : Formulation Rat} {w w' v : Workspace Rat}

theorem widths_concat {n : Network Rat} {table : List (List (Interval Rat))} {last : List (Interval Rat)}
    (htable : table.map List.length = n.hidden.map (·.outputs)) (hlast : last.length = n.outputs) :
    (table ++ [last]).map List.length = n.neuronCount := by
  unfold Network.neuronCount Network.layers
  rw [List.map_append, htable, List.map_append, List.map_singleton, List.map_singleton, hlast]
  rfl

theorem Request.WellFormed.withGiven (hr : r.WellFormed) {table : List (List (Interval Rat))}
    (h : table.map List.length = r.network.neuronCount) : (r.withGiven table).WellFormed where
  box_length := hr.box_length
  given_widths := by
    rintro _ ⟨⟩
    exact h
  range_length := hr.range_length

/-- Without bounds on the output, a second build makes the rows of the first one. -/
theorem Request.build_repeats_plain (hplan : ∀ range, r.plan ≠ .output range) (hr : r.WellFormed)
    (hagree : w.model.AgreesOff [] v.model) (h : r.build solver w = .ok f w') :
    f.table.map List.length = r.network.neuronCount ∧
      ∃ v', (r.withGiven f.table).build solver v = .ok f v' ∧ w'.model.AgreesOff [] v'.model := by
  have hfinish : ∀ (r' : Request Rat) (s : Assembled Rat), r'.network = r.network → r'.name = r.name →
      r'.plan = r.plan → r'.finish solver s =
        pure ⟨r.network, r.name, r.plan.mode, s.table ++ [s.bounds], some s.body⟩ := by
    intro r' s hn hname hp
    unfold Request.finish
    rw [hp, hn, hname]
    split
    · rename_i range heq
      exact absurd heq (hplan range)
    · rfl
  rw [r.build_eq] at h
  obtain ⟨s, w₁, hs, h⟩ := Action.bind_eq_ok.1 h
  rw [hfinish r s rfl rfl rfl] at h
  obtain ⟨rfl, rfl⟩ := Action.pure_eq_ok.1 h
  obtain ⟨stem, w₂, w₃, hass⟩ := assemble_eq_ok hs
  have hwidths := (hass.stands hr).hidden.length_eq.2
  have hbounds : s.bounds.length = r.network.outputs := by
    obtain ⟨u, hlast⟩ := hass.bounds
    exact length_layerBounds hr.fits_output hlast
  refine ⟨widths_concat hwidths hbounds, ?_⟩
  obtain ⟨v', hs', hagree'⟩ := assemble_mirrors s.bounds hr hwidths hagree hs (.inl rfl)
  refine ⟨v', ?_, hagree'⟩
  rw [(r.withGiven (s.table ++ [s.bounds])).build_eq]
  refine Action.bind_eq_ok.2 ⟨s, v', hs', ?_⟩
  rw [hfinish (r.withGiven (s.table ++ [s.bounds])) s rfl rfl rfl]
  rfl

/-- With bounds on the output, a second build comes to the rows of the first one once all of them are
exchanged. -/
theorem Request.build_repeats_output (hs : solver.Exact) (hrelax : r.settings.relax = false)
    (hset : r.settings.Accepted) {range : List (Interval Rat)} (hplan : r.plan = .output range)
    (hr : r.WellFormed) (hm : w.model.WellFormed) (hm' : v.model.WellFormed)
    (hagree : w.model.AgreesOff [] v.model) (h : r.build solver w = .ok f w') :
    f.table.map List.length = r.network.neuronCount ∧
      ∃ v', (r.withGiven f.table).build solver v = .ok f v' ∧ w'.model.AgreesOff [] v'.model := by
  rw [r.build_eq] at h
  obtain ⟨s, w₁, hbuilt, h⟩ := Action.bind_eq_ok.1 h
  unfold Request.finish at h
  rw [hplan] at h
  obtain ⟨⟨units, table⟩, w₂, hagain, h⟩ := Action.bind_eq_ok.1 h
  obtain ⟨rfl, rfl⟩ := Action.pure_eq_ok.1 h
  obtain ⟨stem, u, u', hass⟩ := assemble_eq_ok hbuilt
  have hm₁ := (hass.adds hr).wellFormed hm
  have hb : (s.body.withHidden ([] ++ s.body.hidden)).Stands w₁.model r.network ([] ++ s.table) :=
    hass.stands hr
  have hn : r.network.hidden = [] ++ r.network.hidden := rfl
  obtain ⟨-, hb₂⟩ := retighten_stands hn rfl rfl rfl hm₁ hb hagain
  have hwidths : table.map List.length = r.network.hidden.map (·.outputs) := hb₂.hidden.length_eq.2
  have hall := widths_concat hwidths (hr.range_length range hplan)
  refine ⟨hall, ?_⟩
  -- all rows with a binary variable may differ at first
  obtain ⟨v₁, hbuilt', hagree₁⟩ := assemble_mirrors range hr hwidths
    (hagree.mono (List.nil_subset (s.body.hidden.flatMap Body.switchRows))) hbuilt (.inr (List.Subset.refl _))
  have hr' := hr.withGiven hall
  obtain ⟨stem', x, x', hass'⟩ := assemble_eq_ok hbuilt'
  have hm₁' := (hass'.adds hr').wellFormed hm'
  have hb' : (s.body.withHidden ([] ++ s.body.hidden)).Stands v₁.model r.network ([] ++ table) :=
    hass'.stands hr'
  -- the first run came to the rows of the table without a change of what is admitted
  have hfeas : ∀ x, w₁.model.Feasible x ↔ v₁.model.Feasible x := fun x => by
    rw [← hass.retighten_feasible (fun _ _ _ _ => hs.sound.covers_of_unrelaxed hrelax) hr hm hagain x]
    exact retighten_feasible_iff hn rfl rfl rfl hm₁ hm₁' hb hb' hagree₁ hagain x
  have hfirst : lastVars s.body.inputs [] = s.body.inputs := rfl
  have hlen : (r.network.hidden.head?.getD r.network.output).inputs = s.body.inputs.length :=
    hb'.inputs_length.symm
  obtain ⟨v', hagain', hagree'⟩ := retighten_repeats hs hrelax hset (table ++ [range]) hn rfl rfl hfirst
    r.network.chained hb'.inputs.hasVars hlen hm₁ hm₁' hb hb' hagree₁ hfeas hagain
  refine ⟨v', ?_, hagree'⟩
  rw [(r.withGiven (table ++ [range])).build_eq]
  refine Action.bind_eq_ok.2 ⟨_, v₁, hbuilt', ?_⟩
  have hplan' : (r.withGiven (table ++ [range])).plan = .output range := hplan
  unfold Request.finish
  rw [hplan']
  exact Action.bind_eq_ok.2 ⟨(units, table), v', hagain', rfl⟩

theorem Request.build_repeats (hr : r.WellFormed) (hset : r.settings.Accepted)
    (hexact : r.plan.mode = .output → solver.Exact ∧ r.settings.relax = false) (hm : w.model.WellFormed)
    (hm' : v.model.WellFormed) (hagree : w.model.AgreesOff [] v.model) (h : r.build solver w = .ok f w') :
    f.table.map List.length = r.network.neuronCount ∧
      ∃ v', (r.withGiven f.table).build solver v = .ok f v' ∧ w'.model.AgreesOff [] v'.model := by
  cases hp : r.plan with
  | fast => exact Request.build_repeats_plain (by rw [hp]; exact nofun) hr hagree h
  | standard => exact Request.build_repeats_plain (by rw [hp]; exact nofun) hr hagree h
  | output range =>
    obtain ⟨hs, hrelax⟩ := hexact (by rw [hp]; rfl)
    exact Request.build_repeats_output hs hrelax hset hp hr hm hm' hagree h

end Builds

/-! ### Tables that were returned -/

section Tables

variable {α : Type}

/-- One side of a table as arguments, a vector for each layer. -/
def TableArgument.ofTable (side : Interval α → α) (table : List (List (Interval α))) : TableArgument α :=
  .layers (table.map fun is => ⟨.ok is.length, .ok (.ofVector (is.map side))⟩)

/-- The arguments with both sides of a table. -/
def BuildArguments.withTable (a : BuildArguments α) (table : List (List (Interval α))) : BuildArguments α :=
  { a with
    boundsUpper := .ofTable (·.upper) table
    boundsLower := .ofTable (·.lower) table }

theorem checkWidths_ofTable (s : Side) (side : Interval α → α) (k : Nat) {table : List (List (Interval α))}
    {ns : List Nat} (h : table.map List.length = ns) :
    BuildArguments.checkWidths s k
      (table.map fun is => (⟨.ok is.length, .ok (.ofVector (is.map side))⟩ : LayerArgument α)) ns = .ok () := by
  subst h
  induction table generalizing k with
  | nil => rfl
  | cons is table ih =>
    show (if is.length = is.length then BuildArguments.checkWidths s (k + 1) _ _ else _) = _
    rw [if_pos rfl]
    exact ih (k + 1)

theorem checkSide_ofTable (s : Side) (side : Interval α → α) {table : List (List (Interval α))} {ns : List Nat}
    (h : table.map List.length = ns) : BuildArguments.checkSide s ns (.ofTable side table) =
      .ok (table.map fun is => ⟨.ok is.length, .ok (.ofVector (is.map side))⟩) := by
  unfold BuildArguments.checkSide TableArgument.ofTable
  dsimp only
  rw [checkWidths_ofTable s side 1 h, if_pos (by rw [← h, List.length_map, List.length_map])]
  rfl

theorem mapM_reading_ofTable (side : Interval α → α) (table : List (List (Interval α))) :
    (table.map fun is => (⟨.ok is.length, .ok (.ofVector (is.map side))⟩ : LayerArgument α)).mapM
        (fun l => (l.reading : Except Fault (Tensor α))) =
      .ok (table.map fun is => Tensor.ofVector (is.map side)) := by
  refine mapM_of_forall₂ ?_
  rw [List.forall₂_map_left_iff, List.forall₂_map_right_iff]
  exact List.forall₂_same.2 fun _ _ => rfl

theorem ofLists_sides (is : List (Interval α)) : Interval.ofLists (is.map (·.upper)) (is.map (·.lower)) = is := by
  unfold Interval.ofLists
  rw [List.zipWith_map, List.zipWith_self]
  exact List.map_id _

/-- Both sides of a table are read as the table. -/
theorem table_ofTable {table : List (List (Interval α))} {ns : List Nat} (h : table.map List.length = ns) :
    BuildArguments.table ns (.ofTable (·.upper) table) (.ofTable (·.lower) table) = .ok (some table) := by
  have hread : BuildArguments.table ns (.ofTable (·.upper) table) (.ofTable (·.lower) table) = (do
      let us ← BuildArguments.checkSide .upper ns (.ofTable (·.upper) table)
      let ls ← BuildArguments.checkSide .lower ns (.ofTable (·.lower) table)
      let us ← us.mapM (·.reading)
      let ls ← ls.mapM (·.reading)
      return some (List.zipWith (fun u l => Interval.ofLists u.entries l.entries) us ls)) := rfl
  rw [hread]
  refine Except.bind_eq_ok.2 ⟨_, checkSide_ofTable .upper (·.upper) h, ?_⟩
  refine Except.bind_eq_ok.2 ⟨_, checkSide_ofTable .lower (·.lower) h, ?_⟩
  refine Except.bind_eq_ok.2 ⟨_, mapM_reading_ofTable (·.upper) table, ?_⟩
  refine Except.bind_eq_ok.2 ⟨_, mapM_reading_ofTable (·.lower) table, ?_⟩
  rw [List.zipWith_map, List.zipWith_self]
  refine congrArg (fun t => Except.ok (some t)) ?_
  exact (List.map_congr_left fun is _ => ofLists_sides is).trans (List.map_id _)

/-- A table of the right widths is accepted, and nothing else is read differently. -/
theorem request_withTable [Scalar α] {a : BuildArguments α} {r : Request α} {table : List (List (Interval α))}
    (h : a.request = .ok r) (hwidths : table.map List.length = r.network.neuronCount) :
    (a.withTable table).request = .ok (r.withGiven table) := by
  have hnet := (request_eq_ok h).network
  unfold BuildArguments.request at h ⊢
  rw [show (a.withTable table).network = .ok r.network from hnet]
  rw [hnet] at h
  obtain ⟨n, hn, h⟩ := Except.bind_eq_ok.1 h
  obtain ⟨mode, hmode, h⟩ := Except.bind_eq_ok.1 h
  obtain ⟨us, hus, h⟩ := Except.bind_eq_ok.1 h
  obtain ⟨ls, hls, h⟩ := Except.bind_eq_ok.1 h
  obtain ⟨box, hbox, h⟩ := Except.bind_eq_ok.1 h
  obtain ⟨given, -, h⟩ := Except.bind_eq_ok.1 h
  cases hn
  refine Except.bind_eq_ok.2 ⟨_, rfl, Except.bind_eq_ok.2 ⟨mode, hmode, ?_⟩⟩
  refine Except.bind_eq_ok.2 ⟨us, hus, Except.bind_eq_ok.2 ⟨ls, hls, Except.bind_eq_ok.2 ⟨box, hbox, ?_⟩⟩⟩
  refine Except.bind_eq_ok.2 ⟨some table, table_ofTable hwidths, ?_⟩
  have hgive : ∀ q : Request α, (.ok q : Except Fault _) = .ok r →
      (.ok (q.withGiven table) : Except Fault _) = .ok (r.withGiven table) :=
    fun _ hq => congrArg (fun q => Except.ok (q.withGiven table)) (Except.ok.inj hq)
  cases mode with
  | fast => exact hgive _ h
  | standard => exact hgive _ h
  | output =>
    obtain ⟨ous, hous, h⟩ := Except.bind_eq_ok.1 h
    obtain ⟨ols, hols, h⟩ := Except.bind_eq_ok.1 h
    exact Except.bind_eq_ok.2 ⟨ous, hous, Except.bind_eq_ok.2 ⟨ols, hols, hgive _ h⟩⟩

end Tables

/-! ### Networks formulated again -/

section Again

variable {solver : Solver Rat} {settings : Option Settings} {a : BuildArguments Rat} {f : Formulation Rat}
  {w w' v : Workspace Rat}

/-- Models with the same variables, rows and objective, and with the same numbers for what is added next. -/
def Model.SameContent (m m' : Model Rat) : Prop := m' = { m with name := m'.name, parameters := m'.parameters }

theorem Model.AgreesOff.sameContent {m m' : Model Rat} (h : m.AgreesOff [] m') : m.SameContent m' := by
  obtain ⟨name, parameters, vars, rows, objective, nextVar, nextRow⟩ := m'
  have hrows := h.rows_eq
  cases h.vars
  cases h.objective
  cases h.nextVar
  cases h.nextRow
  cases hrows
  rfl

theorem Model.SameContent.wellFormed {m m' : Model Rat} (h : m.SameContent m') (hm : m.WellFormed) :
    m'.WellFormed := by
  rw [h]
  exact ⟨hm.vars_lt, hm.rows_lt, hm.vars_nodup, hm.rows_nodup, hm.terms_lt⟩

theorem accepted_of_formulateNetwork (h : formulateNetwork solver settings a w = .ok f w') :
    ∀ s ∈ settings, s.Accepted := by
  rintro s rfl
  obtain ⟨_, w₀, hchange, -⟩ := Action.bind_eq_ok.1 h
  exact Settings.accepted_of_changeParameters hchange

/-- A network that is formulated once more, with the table of the first time and all other arguments as
they were, in a model with the same contents, comes out as it did: with the same table, the same variables, and
the same rows in the same order. With bounds on the output this takes a solver that finds all optima, and
subproblems that are not relaxed; the range may be out of reach. Otherwise any solver does, whatever the
settings are. -/
theorem returned_table_reproduces (hm : w.model.WellFormed) (ha : a.Faithful)
    (hv : w.model.SameContent v.model)
    (hexact : Mode.ofValue a.mode = .ok .output → solver.Exact ∧ (settings.getD .default).relax = false)
    (h : formulateNetwork solver settings a w = .ok f w') :
    ∃ v', formulateNetwork solver settings (a.withTable f.table) v = .ok f v' ∧
      w'.model.SameContent v'.model := by
  obtain ⟨r, w₀, hreq, hw₀, hbuild⟩ := formulateNetwork_eq_ok h
  have hset := accepted_of_formulateNetwork h
  obtain ⟨p, -, hagain⟩ := formulateNetwork_eq hset solver (a.withTable f.table) v
  have hasks := request_eq_ok hreq
  have hsettings : r.settings = settings.getD .default := (request_settings hreq).1
  have haccepted : r.settings.Accepted := by
    rw [hsettings]
    cases settings with
    | none => decide
    | some s => exact hset s rfl
  have hmode : r.plan.mode = .output → solver.Exact ∧ r.settings.relax = false := fun hp => by
    rw [hsettings]
    exact hexact (hp ▸ hasks.mode)
  have hm₀ : w₀.model.WellFormed := by
    rw [hw₀]
    exact Model.wellFormed_parameters hm _
  have hm' := Model.wellFormed_parameters (hv.wellFormed hm) p
  have hagree : w₀.model.AgreesOff [] { v.model with parameters := p } := by
    rw [hw₀, hv]
    exact ⟨rfl, rfl, rfl, rfl, rfl⟩
  obtain ⟨hwidths, v', hbuild', hagree'⟩ :=
    Request.build_repeats (v := { v with model := { v.model with parameters := p } }) (hasks.wellFormed ha)
      haccepted hmode hm₀ hm' hagree hbuild
  have hreq' := request_withTable hreq hwidths
  exact ⟨v', (hagain _ hreq').trans hbuild', hagree'.sameContent⟩

/-- Here the range of the output is out of reach. -/
theorem returned_table_reproduces_absolute :
    ∃ f w' v', formulateNetwork .ideal none (.absolute "output") (.ofModel (.empty "model")) = .ok f w' ∧
      formulateNetwork .ideal none ((BuildArguments.absolute "output").withTable f.table)
        (.ofModel (.empty "again")) = .ok f v' ∧ w'.model.SameContent v'.model := by
  have hbuild : Action.succeeds (formulateNetwork .ideal none (.absolute "output"))
      (.ofModel (.empty "model")) = true := by decide +kernel
  obtain ⟨f, w', h⟩ := Action.exists_of_succeeds hbuild
  have hmodels : (Model.empty "model").SameContent (Model.empty "again") := rfl
  obtain ⟨v', h', hsame⟩ := returned_table_reproduces (v := .ofModel (.empty "again"))
    (Model.wellFormed_empty "model") (BuildArguments.faithful_absolute "output") hmodels
    (fun _ => ⟨exact_ideal, rfl⟩) h
  exact ⟨f, w', v', h, h', hsame⟩

end Again

end ReluMilp
