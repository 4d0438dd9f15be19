import ReluMilp.Formulation.Entry
import ReluMilp.Proofs.Splicing

/-!
# Hidden layers bounded again

With bounds on the output, the hidden layers are bounded again on the complete model, and the rows of every
neuron are exchanged while later layers are still to come.

* `Body.Stands.swap_at`, `replaceUnits_stands`, `retighten_stands` — one exchange, those of a layer and those
  of all layers: the network stands in the model all the time;
* `Body.Stands.feasible_swap_at`, `replaceUnits_feasible`, `retighten_feasible` — with a sound solver, the
  feasible assignments stay;
* `Model.SameVars`, `replaceUnits_vars`, `retighten_vars` — so do the variables; `replaceUnits_keeps` — and
  the rows without a binary variable;
* `retighten_layer`, `retighten_cons` — the first of some layers: its optima, its exchanges and the layers
  after it;
* `Request.finish_stands`, `Request.finish_feasible`, `Request.build_stands` — the same for a whole build;
* `formulateNetwork_run`, `formulateNetwork_eq_ok` — a network is formulated by the build of a request;
* `retightening_neutral` — bounding again neither cuts off a feasible assignment nor admits a new one.
-/

namespace ReluMilp

variable {α : Type} [Scalar α]

/-! ### Exchanges one after the other -/

/-- One place in hidden layers and in a table. -/
theorem modify_append {β : Type} (pre : List (List β)) (done : List β) (c c' : β) (cs : List β)
    (rest : List (List β)) :
    (pre ++ (done ++ c :: cs) :: rest).modify pre.length (fun cs => cs.set done.length c') =
      pre ++ (done ++ c' :: cs) :: rest := by
  induction pre with
  | nil => rw [List.nil_append, List.length_nil, List.modify_zero_cons, List.set_append_right _ _ le_rfl,
      Nat.sub_self, List.set_cons_zero, List.nil_append]
  | cons p pre ih => rw [List.cons_append, List.length_cons, List.modify_succ_cons, ih, List.cons_append]

theorem getElem?_append_cons {β : Type} (pre : List β) (c : β) (rest : List β) :
    (pre ++ c :: rest)[pre.length]? = some c := by
  rw [List.getElem?_append_right le_rfl, Nat.sub_self, List.getElem?_cons_zero]

/-- A body with other hidden layers. -/
def Body.withHidden (b : Body) (uss : List (List HiddenUnit)) : Body := { b with hidden := uss }

section Swap

variable {n : Network α} {b : Body} {m : Model α} {pre uss : List (List HiddenUnit)}
  {tpre tss : List (List (Interval α))} {done us : List HiddenUnit} {tdone ds : List (Interval α)}
  {u : HiddenUnit} {d : Interval α}

/-- The rows of one neuron are exchanged, with the exchanges before it done. The network still stands in the
model. -/
theorem Body.Stands.swap_at (hpre : tpre.length = pre.length) (hdone : tdone.length = done.length)
    (hm : m.WellFormed)
    (hb : (b.withHidden (pre ++ (done ++ u :: us) :: uss)).Stands m n (tpre ++ (tdone ++ d :: ds) :: tss))
    (t t' : String) (j : Interval α) :
    (m.swap u t t' j).WellFormed ∧
      (b.withHidden (pre ++ (done ++ u.moved m.nextRow :: us) :: uss)).Stands (m.swap u t t' j) n
        (tpre ++ (tdone ++ j :: ds) :: tss) := by
  have hk : (b.withHidden (pre ++ (done ++ u :: us) :: uss)).hidden[pre.length]? =
      some (done ++ u :: us) := getElem?_append_cons pre _ uss
  have hi : (done ++ u :: us)[done.length]? = some u := getElem?_append_cons done u us
  obtain ⟨hs, hwf⟩ := hb.swap hm hk hi t t' j
  have hbody : (b.withHidden (pre ++ (done ++ u :: us) :: uss)).withUnit pre.length done.length
      (u.moved m.nextRow) = b.withHidden (pre ++ (done ++ u.moved m.nextRow :: us) :: uss) := by
    unfold Body.withUnit Body.withHidden
    dsimp only
    rw [modify_append]
  rw [hbody, ← hdone, ← hpre, modify_append] at hs
  exact ⟨hwf, hs⟩

end Swap

/-- Where the new bounds are sound, what is feasible stays. -/
theorem Body.Stands.feasible_swap_at {n : Network Rat} {b : Body} {m : Model Rat}
    {pre uss : List (List HiddenUnit)} {tpre tss : List (List (Interval Rat))}
    {done us : List HiddenUnit} {tdone ds : List (Interval Rat)} {u : HiddenUnit} {d j : Interval Rat}
    (hpre : tpre.length = pre.length) (hdone : tdone.length = done.length) (hm : m.WellFormed)
    (hb : (b.withHidden (pre ++ (done ++ u :: us) :: uss)).Stands m n (tpre ++ (tdone ++ d :: ds) :: tss))
    (t t' : String) (hin : d.Within j) (hat : ∀ x, m.Feasible x → d.ReplacedAt j (x u.x - x u.s))
    (x : Assignment Rat) : (m.swap u t t' j).Feasible x ↔ m.Feasible x := by
  have hmem : u ∈ (b.withHidden (pre ++ (done ++ u :: us) :: uss)).hidden.flatten :=
    List.mem_flatten.2 ⟨_, List.mem_of_getElem? (getElem?_append_cons pre _ uss),
      List.mem_of_getElem? (getElem?_append_cons done u us)⟩
  obtain ⟨p, n', hu⟩ := hb.hidden.at hpre hdone
  exact feasible_swap hu hm (hb.affine_notMem hmem) hin hat

theorem length_snoc {β γ : Type} {bs : List β} {cs : List γ} (h : bs.length = cs.length) (b : β) (c : γ) :
    (bs ++ [b]).length = (cs ++ [c]).length := by
  rw [List.length_append, List.length_append, h]
  rfl

/-- The rows of the neurons of a layer are exchanged one after the other. The network still stands in the
model. -/
theorem replaceUnits_stands {n : Network α} {b : Body} {name : Value} {k i : Nat}
    {pre uss : List (List HiddenUnit)} {tpre tss : List (List (Interval α))}
    {done us us' : List HiddenUnit} {tdone ds js : List (Interval α)} {w w' : Workspace α}
    (hpre : tpre.length = pre.length) (hdone : tdone.length = done.length) (hds : ds.length = us.length)
    (hjs : js.length = us.length) (hm : w.model.WellFormed)
    (hb : (b.withHidden (pre ++ (done ++ us) :: uss)).Stands w.model n (tpre ++ (tdone ++ ds) :: tss))
    (h : replaceUnits name k i us js w = .ok us' w') :
    w'.model.WellFormed ∧
      (b.withHidden (pre ++ (done ++ us') :: uss)).Stands w'.model n (tpre ++ (tdone ++ js) :: tss) := by
  induction us generalizing i done tdone ds js w us' with
  | nil =>
    rw [List.length_nil, List.length_eq_zero_iff] at hds hjs
    subst hds hjs
    obtain ⟨rfl, rfl⟩ := Action.pure_eq_ok.1 h
    exact ⟨hm, hb⟩
  | cons u us ih =>
    cases ds with
    | nil => cases hds
    | cons d ds =>
    cases js with
    | nil => cases hjs
    | cons j js =>
    obtain ⟨u', w₁, hreplace, h⟩ := Action.bind_eq_ok.1 h
    obtain ⟨us₂, w₂, hrest, h⟩ := Action.bind_eq_ok.1 h
    obtain ⟨rfl, rfl⟩ := Action.pure_eq_ok.1 h
    obtain ⟨rfl, t, t', hw₁⟩ := replaceUnit_eq_ok hreplace
    obtain ⟨hwf, hs⟩ := hb.swap_at hpre hdone hm t t' j
    rw [← hw₁] at hwf hs
    rw [List.append_cons done, List.append_cons tdone] at hs
    obtain ⟨hwf', hs'⟩ := ih (length_snoc hdone j _) (Nat.succ.inj hds) (Nat.succ.inj hjs) hwf hs hrest
    rw [List.append_assoc, List.append_assoc, List.singleton_append, List.singleton_append] at hs'
    exact ⟨hwf', hs'⟩

/-- Where the new bounds are sound, what is feasible stays. -/
theorem replaceUnits_feasible {n : Network Rat} {b : Body} {name : Value} {k i : Nat}
    {pre uss : List (List HiddenUnit)} {tpre tss : List (List (Interval Rat))}
    {done us us' : List HiddenUnit} {tdone ds js : List (Interval Rat)} {w w' : Workspace Rat}
    (hpre : tpre.length = pre.length) (hdone : tdone.length = done.length) (hm : w.model.WellFormed)
    (hb : (b.withHidden (pre ++ (done ++ us) :: uss)).Stands w.model n (tpre ++ (tdone ++ ds) :: tss))
    (hin : List.Forall₂ Interval.Within ds js)
    (hat : ∀ x, w.model.Feasible x → Forall₃ (fun u d j => d.ReplacedAt j (x u.x - x u.s)) us ds js)
    (h : replaceUnits name k i us js w = .ok us' w') (x : Assignment Rat) :
    w'.model.Feasible x ↔ w.model.Feasible x := by
  induction hin generalizing i done us tdone w us' with
  | nil =>
    cases us with
    | nil =>
      obtain ⟨-, rfl⟩ := Action.pure_eq_ok.1 h
      exact Iff.rfl
    | cons u us =>
      obtain ⟨-, rfl⟩ := Action.pure_eq_ok.1 h
      exact Iff.rfl
  | @cons d j ds js hin₁ _ ih =>
    cases us with
    | nil =>
      obtain ⟨-, rfl⟩ := Action.pure_eq_ok.1 h
      exact Iff.rfl
    | cons u us =>
      obtain ⟨u', w₁, hreplace, h⟩ := Action.bind_eq_ok.1 h
      obtain ⟨us₂, w₂, hrest, h⟩ := Action.bind_eq_ok.1 h
      obtain ⟨-, rfl⟩ := Action.pure_eq_ok.1 h
      obtain ⟨rfl, t, t', hw₁⟩ := replaceUnit_eq_ok hreplace
      obtain ⟨hwf, hs⟩ := hb.swap_at hpre hdone hm t t' j
      -- the first exchange keeps what is feasible, so that the other bounds are still sound
      have hsame := hb.feasible_swap_at hpre hdone hm t t' hin₁ fun y hy => by
        cases hat y hy with
        | cons h₁ _ => exact h₁
      rw [← hw₁] at hwf hs hsame
      rw [List.append_cons done, List.append_cons tdone] at hs
      refine (ih (length_snoc hdone j _) hwf hs (fun y hy => ?_) hrest).trans (hsame x)
      cases hat y ((hsame y).1 hy) with
      | cons _ h₂ => exact h₂

theorem improveAll_within {is : List (Interval Rat)} {os : List (Optima Rat)}
    (h : os.length = is.length) : List.Forall₂ Interval.Within is (improveAll is os) := by
  induction is generalizing os with
  | nil => exact .nil
  | cons i is ih =>
    cases os with
    | nil => cases h
    | cons o os => exact .cons (improve_within i o.upper o.lower) (ih (Nat.succ.inj h))

theorem improveAll_replacedAt {x : Assignment Rat} {prev : List VarId} {ns : List (Neuron Rat)}
    {us : List HiddenUnit} {is : List (Interval Rat)} {os : List (Optima Rat)}
    (hs : Forall₃ (fun n u _ => x u.x - x u.s = n.preactivation (prev.map x)) ns us is)
    (ho : List.Forall₂ (fun n o => o.Bounds (n.preactivation (prev.map x))) ns os) :
    Forall₃ (fun u d j => d.ReplacedAt j (x u.x - x u.s)) us is (improveAll is os) := by
  induction hs generalizing os with
  | nil =>
    cases ho
    exact .nil
  | cons haff _ ih =>
    cases ho with
    | cons hbound hbounds =>
      rw [← haff] at hbound
      exact .cons (improve_replacedAt _ hbound) (ih hbounds)

theorem lastVars_append_singleton (prev : List VarId) (pre : List (List HiddenUnit))
    (us : List HiddenUnit) : lastVars prev (pre ++ [us]) = us.map (·.x) := by
  induction pre generalizing prev with
  | nil => rfl
  | cons vs pre ih => exact ih (vs.map (·.x))

/-! ### Variables stay -/

omit [Scalar α] in
/-- The second model has exactly the variables of the first. -/
structure Model.SameVars (m m' : Model α) : Prop where
  vars : m'.vars = m.vars
  nextVar : m'.nextVar = m.nextVar

omit [Scalar α] in
theorem Model.SameVars.refl (m : Model α) : m.SameVars m := ⟨rfl, rfl⟩

omit [Scalar α] in
theorem Model.SameVars.trans {m m₁ m₂ : Model α} (h₁ : m.SameVars m₁) (h₂ : m₁.SameVars m₂) :
    m.SameVars m₂ :=
  ⟨h₂.vars.trans h₁.vars, h₂.nextVar.trans h₁.nextVar⟩

/-- Exchanges keep the variables of all neurons, and those of the model. -/
theorem replaceUnits_vars {name : Value} {k i : Nat} {us us' : List HiddenUnit} {js : List (Interval α)}
    {w w' : Workspace α} (h : replaceUnits name k i us js w = .ok us' w') :
    us'.map HiddenUnit.vars = us.map HiddenUnit.vars ∧ w.model.SameVars w'.model := by
  induction us generalizing i js w us' with
  | nil =>
    obtain ⟨rfl, rfl⟩ := Action.pure_eq_ok.1 h
    exact ⟨rfl, .refl _⟩
  | cons u us ih =>
    cases js with
    | nil =>
      obtain ⟨rfl, rfl⟩ := Action.pure_eq_ok.1 h
      exact ⟨rfl, .refl _⟩
    | cons j js =>
      obtain ⟨u', w₁, hreplace, h⟩ := Action.bind_eq_ok.1 h
      obtain ⟨us₂, w₂, hrest, h⟩ := Action.bind_eq_ok.1 h
      obtain ⟨rfl, rfl⟩ := Action.pure_eq_ok.1 h
      obtain ⟨rfl, t, t', hw₁⟩ := replaceUnit_eq_ok hreplace
      obtain ⟨hvars, hsame⟩ := ih hrest
      have hswap : w.model.SameVars w₁.model := by
        rw [hw₁]
        exact ⟨rfl, rfl⟩
      refine ⟨?_, hswap.trans hsame⟩
      rw [List.map_cons, List.map_cons, hvars]
      rfl

/-- The rows with a binary variable of a hidden layer. -/
def Body.switchRows (us : List HiddenUnit) : List RowId := us.flatMap fun u => [u.upperRow, u.lowerRow]

/-- Exchanges take no other rows out of the model. -/
theorem replaceUnits_keeps {name : Value} {k i : Nat} {us us' : List HiddenUnit} {js : List (Interval α)}
    {w w' : Workspace α} (h : replaceUnits name k i us js w = .ok us' w') :
    w.model.Keeps w'.model (Body.switchRows us) := by
  induction us generalizing i js w us' with
  | nil =>
    obtain ⟨rfl, rfl⟩ := Action.pure_eq_ok.1 h
    exact .refl _ _
  | cons u us ih =>
    cases js with
    | nil =>
      obtain ⟨rfl, rfl⟩ := Action.pure_eq_ok.1 h
      exact .refl _ _
    | cons j js =>
      obtain ⟨u', w₁, hreplace, h⟩ := Action.bind_eq_ok.1 h
      obtain ⟨us₂, w₂, hrest, h⟩ := Action.bind_eq_ok.1 h
      obtain ⟨rfl, rfl⟩ := Action.pure_eq_ok.1 h
      obtain ⟨-, t, t', hw₁⟩ := replaceUnit_eq_ok hreplace
      have hswap := keeps_swap w.model u t t' j
      rw [← hw₁] at hswap
      exact hswap.trans (ih hrest)

/-! ### Layers bounded again -/

/-- The layers of a network that stands in a model after some others. -/
theorem Body.Stands.rest {m : Model α} {n : Network α} {b : Body} {lpre ls : List (Layer α)}
    {pre uss : List (List HiddenUnit)} {tpre iss : List (List (Interval α))}
    (hb : (b.withHidden (pre ++ uss)).Stands m n (tpre ++ iss)) (hn : n.hidden = lpre ++ ls)
    (hl : lpre.length = pre.length) (ht : tpre.length = pre.length) :
    Layerwise (HiddenUnit.Stands m) (lastVars b.inputs pre) ls uss iss := by
  have hlayers := hb.hidden
  rw [hn] at hlayers
  exact hlayers.drop hl ht

theorem Body.Stands.first {m : Model α} {n : Network α} {b : Body} {lpre ls : List (Layer α)} {l : Layer α}
    {us : List HiddenUnit} {pre uss : List (List HiddenUnit)} {is : List (Interval α)}
    {tpre iss : List (List (Interval α))}
    (hb : (b.withHidden (pre ++ us :: uss)).Stands m n (tpre ++ is :: iss)) (hn : n.hidden = lpre ++ l :: ls)
    (hl : lpre.length = pre.length) (ht : tpre.length = pre.length) :
    Forall₃ (HiddenUnit.Stands m (lastVars b.inputs pre)) l.neurons us is := by
  cases hb.rest hn hl ht with
  | cons hlayer _ => exact hlayer

section Layers

variable {solver : Solver α} {n : Network α} {b : Body} {k : Nat} {prev : List VarId}
  {lpre ls : List (Layer α)} {pre uss : List (List HiddenUnit)} {tpre iss : List (List (Interval α))}

/-- The first of some hidden layers is bounded again, with optima on the model as it is, and its rows are
exchanged. The network still stands in the model. -/
theorem retighten_layer_stands {s : Settings} {jobs : Jobs} {name : Value} {l : Layer α}
    {us us' : List HiddenUnit} {is js : List (Interval α)} {w w₁ w₂ : Workspace α}
    (hn : n.hidden = lpre ++ l :: ls) (hl : lpre.length = pre.length) (ht : tpre.length = pre.length)
    (hprev : lastVars b.inputs pre = prev) (hm : w.model.WellFormed)
    (hb : (b.withHidden (pre ++ us :: uss)).Stands w.model n (tpre ++ is :: iss))
    (htighten : tightenLayer solver s jobs prev l is w = .ok js w₁)
    (hunits : replaceUnits name k 0 us js w₁ = .ok us' w₂) :
    ∃ os, js = improveAll is os ∧ w₁.model = w.model ∧
      Forall₃ (HiddenUnit.Stands w.model prev) l.neurons us is ∧
      List.Forall₂ (fun n o => o.From solver s.relax w.model prev n) l.neurons os ∧
      w₂.model.WellFormed ∧
      (b.withHidden ((pre ++ [us']) ++ uss)).Stands w₂.model n ((tpre ++ [js]) ++ iss) := by
  have hlayer := hb.first hn hl ht
  rw [hprev] at hlayer
  obtain ⟨hw₁, os, rfl, hos⟩ := tightenLayer_eq_ok htighten
  have hlen : os.length = is.length := hos.length_eq.symm.trans hlayer.length_right.symm
  have hds : is.length = us.length := hlayer.length_right.trans hlayer.length_middle.symm
  have hjs : (improveAll is os).length = us.length := by
    rw [improveAll, List.length_zipWith, hlen, min_self, hds]
  rw [← hw₁] at hm hb
  have hstart : ([] : List (Interval α)).length = ([] : List HiddenUnit).length := rfl
  obtain ⟨hm₂, hb₂⟩ := replaceUnits_stands ht hstart hds hjs hm hb hunits
  rw [List.nil_append, List.nil_append, List.append_cons pre, List.append_cons tpre] at hb₂
  exact ⟨os, rfl, hw₁, hlayer, hos, hm₂, hb₂⟩

/-- Hidden layers are bounded again one after the other. The network still stands in the model. -/
theorem retighten_stands {r : Request α} {uss' : List (List HiddenUnit)} {iss' : List (List (Interval α))}
    {w w' : Workspace α} (hn : n.hidden = lpre ++ ls) (hl : lpre.length = pre.length)
    (ht : tpre.length = pre.length) (hprev : lastVars b.inputs pre = prev) (hm : w.model.WellFormed)
    (hb : (b.withHidden (pre ++ uss)).Stands w.model n (tpre ++ iss))
    (h : retighten solver r k prev ls uss iss w = .ok (uss', iss') w') :
    w'.model.WellFormed ∧ (b.withHidden (pre ++ uss')).Stands w'.model n (tpre ++ iss') := by
  induction ls generalizing k prev lpre pre uss uss' tpre iss iss' w with
  | nil =>
    cases hb.rest hn hl ht
    obtain ⟨heq, rfl⟩ := Action.pure_eq_ok.1 h
    cases heq
    exact ⟨hm, hb⟩
  | cons l ls ih =>
    cases hb.rest hn hl ht with
    | cons _ _ =>
    obtain ⟨js, w₁, us', w₂, uss₂, iss₂, htighten, -, hunits, hlater, heq⟩ := retighten_eq_ok.1 h
    cases heq
    obtain ⟨-, -, -, -, -, hm₂, hb₂⟩ := retighten_layer_stands hn hl ht hprev hm hb htighten hunits
    rw [List.append_cons lpre] at hn
    obtain ⟨hm₃, hb₃⟩ := ih hn (length_snoc hl l us') (length_snoc ht _ us')
      (lastVars_append_singleton b.inputs pre us') hm₂ hb₂ hlater
    rw [List.append_assoc, List.append_assoc, List.singleton_append, List.singleton_append] at hb₃
    exact ⟨hm₃, hb₃⟩

end Layers

/-- The first of some hidden layers is bounded again, with optima on the model as it is, and its rows are
exchanged. The network still stands in the model, and if the optima cover it exactly the same assignments are
feasible. -/
theorem retighten_layer {solver : Solver Rat} {s : Settings} {jobs : Jobs} {n : Network Rat} {b : Body}
    {name : Value} {k : Nat} {prev : List VarId} {lpre ls : List (Layer Rat)} {l : Layer Rat}
    {us us' : List HiddenUnit} {pre uss : List (List HiddenUnit)} {is js : List (Interval Rat)}
    {tpre iss : List (List (Interval Rat))} {w w₁ w₂ : Workspace Rat} (hn : n.hidden = lpre ++ l :: ls)
    (hl : lpre.length = pre.length) (ht : tpre.length = pre.length)
    (hprev : lastVars b.inputs pre = prev) (hm : w.model.WellFormed)
    (hb : (b.withHidden (pre ++ us :: uss)).Stands w.model n (tpre ++ is :: iss))
    (htighten : tightenLayer solver s jobs prev l is w = .ok js w₁)
    (hunits : replaceUnits name k 0 us js w₁ = .ok us' w₂) :
    ∃ os, js = improveAll is os ∧ w₁.model = w.model ∧
      Forall₃ (HiddenUnit.Stands w.model prev) l.neurons us is ∧
      List.Forall₂ (fun n o => o.From solver s.relax w.model prev n) l.neurons os ∧
      us'.map HiddenUnit.vars = us.map HiddenUnit.vars ∧ w.model.SameVars w₂.model ∧
      w.model.Keeps w₂.model (Body.switchRows us) ∧ w₂.model.WellFormed ∧
      (b.withHidden ((pre ++ [us']) ++ uss)).Stands w₂.model n ((tpre ++ [js]) ++ iss) ∧
      (solver.Covers s.relax w.model prev → ∀ x, w₂.model.Feasible x ↔ w.model.Feasible x) := by
  obtain ⟨os, rfl, hw₁, hlayer, hos, hm₂, hb₂⟩ :=
    retighten_layer_stands hn hl ht hprev hm hb htighten hunits
  have hlen : os.length = is.length := hos.length_eq.symm.trans hlayer.length_right.symm
  obtain ⟨hvars, hsame⟩ := replaceUnits_vars hunits
  refine ⟨os, rfl, hw₁, hlayer, hos, hvars, hw₁ ▸ hsame, hw₁ ▸ replaceUnits_keeps hunits, hm₂, hb₂,
    fun hcover x => ?_⟩
  -- the optima are bounds wherever the model is feasible
  have hat : ∀ x, w₁.model.Feasible x →
      Forall₃ (fun u d j => d.ReplacedAt j (x u.x - x u.s)) us is (improveAll is os) := by
    intro x hx
    rw [hw₁] at hx
    have haff : Forall₃ (fun n u _ => x u.x - x u.s = n.preactivation (prev.map x)) l.neurons us is :=
      hlayer.imp fun n u i _ hu => by
        obtain ⟨_, hr⟩ := hu.affine
        exact (holds_hidden _ _ _ _ _ _ _).1 (hx.2 _ hr)
    exact improveAll_replacedAt haff (hos.imp fun n o ho => hcover n o x ho hx)
  rw [← hw₁] at hm hb
  have hstart : ([] : List (Interval Rat)).length = ([] : List HiddenUnit).length := rfl
  rw [replaceUnits_feasible ht hstart hm hb (improveAll_within hlen) hat hunits x, hw₁]

/-- The first of some hidden layers is bounded again, and the other layers follow. -/
theorem retighten_cons {solver : Solver Rat} {r : Request Rat} {n : Network Rat} {b : Body} {k : Nat}
    {prev : List VarId} {lpre ls : List (Layer Rat)} {l : Layer Rat} {us : List HiddenUnit}
    {pre uss uss' : List (List HiddenUnit)} {is : List (Interval Rat)}
    {tpre iss iss' : List (List (Interval Rat))} {w w' : Workspace Rat} (hn : n.hidden = lpre ++ l :: ls)
    (hl : lpre.length = pre.length) (ht : tpre.length = pre.length)
    (hprev : lastVars b.inputs pre = prev) (hm : w.model.WellFormed)
    (hb : (b.withHidden (pre ++ us :: uss)).Stands w.model n (tpre ++ is :: iss))
    (h : retighten solver r k prev (l :: ls) (us :: uss) (is :: iss) w = .ok (uss', iss') w') :
    ∃ os us' uss₂ iss₂ w₂, uss' = us' :: uss₂ ∧ iss' = improveAll is os :: iss₂ ∧
      Forall₃ (HiddenUnit.Stands w.model prev) l.neurons us is ∧
      List.Forall₂ (fun n o => o.From solver r.settings.relax w.model prev n) l.neurons os ∧
      us'.map HiddenUnit.vars = us.map HiddenUnit.vars ∧ w.model.SameVars w₂.model ∧
      w.model.Keeps w₂.model (Body.switchRows us) ∧ w₂.model.WellFormed ∧
      (b.withHidden ((pre ++ [us']) ++ uss)).Stands w₂.model n ((tpre ++ [improveAll is os]) ++ iss) ∧
      (solver.Covers r.settings.relax w.model prev → ∀ x, w₂.model.Feasible x ↔ w.model.Feasible x) ∧
      retighten solver r (k + 1) (us'.map (·.x)) ls uss iss w₂ = .ok (uss₂, iss₂) w' := by
  obtain ⟨js, w₁, us', w₂, uss₂, iss₂, htighten, -, hunits, hlater, heq⟩ := retighten_eq_ok.1 h
  cases heq
  obtain ⟨os, rfl, -, hlayer, hos, hvars, hsame, hkeep, hm₂, hb₂, hfeas⟩ :=
    retighten_layer hn hl ht hprev hm hb htighten hunits
  exact ⟨os, us', uss₂, iss₂, w₂, rfl, rfl, hlayer, hos, hvars, hsame, hkeep, hm₂, hb₂, hfeas, hlater⟩

/-- Hidden layers on new variables are bounded again one after the other. If the optima cover such models,
exactly the same assignments are feasible. -/
theorem retighten_feasible {solver : Solver Rat} {r : Request Rat} {n : Network Rat} {b : Body} {k : Nat}
    {prev : List VarId} {lpre ls : List (Layer Rat)} {pre uss uss' : List (List HiddenUnit)}
    {tpre iss iss' : List (List (Interval Rat))} {base : Model Rat} {w w' : Workspace Rat}
    (hcover : solver.CoversBeside r.settings.relax base) (hw : base.Beside w.model)
    (hnew : ∀ id ∈ prev, base.nextVar ≤ id) (hunits : ∀ us ∈ uss, ∀ u ∈ us, ∀ id ∈ u.vars, base.nextVar ≤ id)
    (hn : n.hidden = lpre ++ ls) (hl : lpre.length = pre.length) (ht : tpre.length = pre.length)
    (hprev : lastVars b.inputs pre = prev) (hm : w.model.WellFormed)
    (hb : (b.withHidden (pre ++ uss)).Stands w.model n (tpre ++ iss))
    (h : retighten solver r k prev ls uss iss w = .ok (uss', iss') w') (x : Assignment Rat) :
    w'.model.Feasible x ↔ w.model.Feasible x := by
  induction ls generalizing k prev lpre pre uss uss' tpre iss iss' w with
  | nil =>
    obtain ⟨-, rfl⟩ := Action.pure_eq_ok.1 h
    exact Iff.rfl
  | cons l ls ih =>
    cases hb.rest hn hl ht with
    | @cons _ _ us is _ uss iss _ _ =>
    obtain ⟨js, w₁, us', w₂, uss₂, iss₂, htighten, -, hreplace, hlater, -⟩ := retighten_eq_ok.1 h
    obtain ⟨os, -, hw₁, -, -, hvars, -, -, hm₂, hb₂, hfeas₂⟩ :=
      retighten_layer hn hl ht hprev hm hb htighten hreplace
    obtain ⟨hus, huss⟩ := List.forall_mem_cons.1 hunits
    have hw₂ : base.Beside w₂.model := replaceUnits_beside (hw₁ ▸ hw) hus hreplace
    -- the next layer reads the values of this one, whose variables stay
    have hnext : ∀ id ∈ us'.map (·.x), base.nextVar ≤ id := by
      intro id hid
      obtain ⟨u', hu', rfl⟩ := List.mem_map.1 hid
      obtain ⟨u, hu, heq⟩ := List.mem_map.1 (hvars ▸ List.mem_map_of_mem hu')
      exact hus u hu u'.x (heq ▸ List.mem_cons_self)
    rw [List.append_cons lpre] at hn
    have hfeas₃ := ih hw₂ hnext huss hn (length_snoc hl l us') (length_snoc ht _ us')
      (lastVars_append_singleton b.inputs pre us') hm₂ hb₂ hlater
    exact hfeas₃.trans (hfeas₂ (hcover hw hnew) x)

theorem retighten_vars {solver : Solver α} {r : Request α} {k : Nat} {prev : List VarId}
    {ls : List (Layer α)} {uss uss' : List (List HiddenUnit)} {iss iss' : List (List (Interval α))}
    {w w' : Workspace α} (h : retighten solver r k prev ls uss iss w = .ok (uss', iss') w') :
    uss'.map (·.map HiddenUnit.vars) = uss.map (·.map HiddenUnit.vars) ∧
      w.model.SameVars w'.model := by
  induction ls generalizing k prev uss uss' iss iss' w with
  | nil =>
    obtain ⟨heq, rfl⟩ := Action.pure_eq_ok.1 h
    cases heq
    exact ⟨rfl, .refl _⟩
  | cons l ls ih =>
    cases uss with
    | nil =>
      obtain ⟨heq, rfl⟩ := Action.pure_eq_ok.1 h
      cases heq
      exact ⟨rfl, .refl _⟩
    | cons us uss =>
    cases iss with
    | nil =>
      obtain ⟨heq, rfl⟩ := Action.pure_eq_ok.1 h
      cases heq
      exact ⟨rfl, .refl _⟩
    | cons is iss =>
      obtain ⟨js, w₁, us', w₂, uss₂, iss₂, htighten, -, hunits, hlater, heq⟩ := retighten_eq_ok.1 h
      cases heq
      obtain ⟨hvars, hsame⟩ := replaceUnits_vars hunits
      obtain ⟨hvars', hsame'⟩ := ih hlater
      rw [(tightenLayer_eq_ok htighten).1] at hsame
      rw [List.map_cons, List.map_cons, hvars, hvars']
      exact ⟨rfl, hsame.trans hsame'⟩

/-! ### Builds -/

/-- The hidden layers of an assembly are bounded again. If the optima cover what stands beside the model before,
exactly the same assignments are feasible. -/
theorem Request.Assembles.retighten_feasible {solver : Solver Rat} {r : Request Rat} {s : Assembled Rat}
    {stem : Stem Rat} {w w₁ w₂ w₃ w' : Workspace Rat} {uss : List (List HiddenUnit)}
    {iss : List (List (Interval Rat))} (hass : r.Assembles solver s stem w w₁ w₂ w₃)
    (hcover : solver.CoversBeside r.settings.relax w.model) (hr : r.WellFormed) (hm : w.model.WellFormed)
    (h : retighten solver r 1 s.body.inputs r.network.hidden s.body.hidden s.table w₃ = .ok (uss, iss) w')
    (x : Assignment Rat) : w'.model.Feasible x ↔ w₃.model.Feasible x := by
  have hadds := hass.adds hr
  have hstart : (s.body.withHidden ([] ++ s.body.hidden)).Stands w₃.model r.network ([] ++ s.table) :=
    hass.stands hr
  have hunits : ∀ us ∈ s.body.hidden, ∀ u ∈ us, ∀ id ∈ u.vars, w.model.nextVar ≤ id := by
    intro us hus u hu id hid
    refine (hadds.vars_new (List.mem_append_left _ (List.mem_append_right _ ?_))).1
    exact List.mem_flatMap.2 ⟨us, hus, mem_unitVars_iff.2 ⟨u, hu, hid⟩⟩
  have hn : r.network.hidden = [] ++ r.network.hidden := rfl
  exact ReluMilp.retighten_feasible hcover hass.beside hass.inputs_new hunits hn rfl rfl rfl
    (hadds.wellFormed hm) hstart h x

/-- What the last part of a build keeps: where the network stands and its variables. -/
theorem Request.finish_stands {solver : Solver α} {r : Request α} {s : Assembled α} {f : Formulation α}
    {w w' : Workspace α} (hm : w.model.WellFormed) (hs : s.body.Stands w.model r.network s.table)
    (h : r.finish solver s w = .ok f w') :
    f.network = r.network ∧ w'.model.WellFormed ∧ w.model.SameVars w'.model ∧
      ∃ b table last, f.body? = some b ∧ f.table = table ++ [last] ∧ s.body.SameVars b ∧
        b.Stands w'.model r.network table := by
  unfold Request.finish at h
  cases hp : r.plan with
  | fast =>
    rw [hp] at h
    obtain ⟨rfl, rfl⟩ := Action.pure_eq_ok.1 h
    exact ⟨rfl, hm, .refl _, _, _, _, rfl, rfl, ⟨rfl, rfl, rfl⟩, hs⟩
  | standard =>
    rw [hp] at h
    obtain ⟨rfl, rfl⟩ := Action.pure_eq_ok.1 h
    exact ⟨rfl, hm, .refl _, _, _, _, rfl, rfl, ⟨rfl, rfl, rfl⟩, hs⟩
  | output range =>
    rw [hp] at h
    obtain ⟨⟨units, table⟩, v, hre, h⟩ := Action.bind_eq_ok.1 h
    obtain ⟨rfl, rfl⟩ := Action.pure_eq_ok.1 h
    obtain ⟨hvars, hsame⟩ := retighten_vars hre
    have hstart : (s.body.withHidden ([] ++ s.body.hidden)).Stands w.model r.network ([] ++ s.table) := hs
    have hn : r.network.hidden = [] ++ r.network.hidden := rfl
    obtain ⟨hm', hb'⟩ := retighten_stands hn rfl rfl rfl hm hstart hre
    exact ⟨rfl, hm', hsame, _, _, _, rfl, rfl, ⟨rfl, hvars, rfl⟩, hb'⟩

/-- The last part of a build keeps what is feasible, if the optima cover what stands beside the model before. -/
theorem Request.finish_feasible {solver : Solver Rat} {r : Request Rat} {s : Assembled Rat} {stem : Stem Rat}
    {f : Formulation Rat} {w w₁ w₂ w₃ w' : Workspace Rat}
    (hcover : solver.CoversBeside r.settings.relax w.model) (hr : r.WellFormed) (hm : w.model.WellFormed)
    (hass : r.Assembles solver s stem w w₁ w₂ w₃) (h : r.finish solver s w₃ = .ok f w')
    (x : Assignment Rat) : w'.model.Feasible x ↔ w₃.model.Feasible x := by
  unfold Request.finish at h
  cases hp : r.plan with
  | fast =>
    rw [hp] at h
    obtain ⟨-, rfl⟩ := Action.pure_eq_ok.1 h
    exact Iff.rfl
  | standard =>
    rw [hp] at h
    obtain ⟨-, rfl⟩ := Action.pure_eq_ok.1 h
    exact Iff.rfl
  | output range =>
    rw [hp] at h
    obtain ⟨⟨units, table⟩, v, hre, h⟩ := Action.bind_eq_ok.1 h
    obtain ⟨-, rfl⟩ := Action.pure_eq_ok.1 h
    exact hass.retighten_feasible hcover hr hm hre x

/-- A network that is built stands in the model. -/
theorem Request.build_stands {solver : Solver α} {r : Request α} {f : Formulation α}
    {w w' : Workspace α} (hr : r.WellFormed) (hm : w.model.WellFormed)
    (h : r.build solver w = .ok f w') :
    f.network = r.network ∧ w'.model.WellFormed ∧
      ∃ b table, f.body? = some b ∧ b.Stands w'.model r.network table := by
  rw [r.build_eq] at h
  obtain ⟨s, w₁, hs, h⟩ := Action.bind_eq_ok.1 h
  obtain ⟨stem, v, v', hass⟩ := assemble_eq_ok hs
  have hm₁ := (hass.adds hr).wellFormed hm
  obtain ⟨hn, hm', -, b, table, last, hb, -, -, hstands⟩ := finish_stands hm₁ (hass.stands hr) h
  exact ⟨hn, hm', b, table, hb, hstands⟩

/-! ### Formulated networks -/

section Run

variable {solver : Solver α} {settings : Option Settings} {a : BuildArguments α} {f : Formulation α}
  {w w' : Workspace α}

/-- A network is formulated by the build of a request, in a workspace of which only the parameters may have
changed. -/
theorem formulateNetwork_run (h : formulateNetwork solver settings a w = .ok f w') :
    ∃ r w₀, ({ a with settings := settings.getD .default } : BuildArguments α).request = .ok r ∧
      w₀ = { w with model := { w.model with parameters := w₀.model.parameters } } ∧
      r.build solver w₀ = .ok f w' := by
  unfold formulateNetwork at h
  cases settings with
  | none =>
    obtain ⟨r, w₁, hreq, h⟩ := Action.bind_eq_ok.1 h
    obtain ⟨hr, rfl⟩ := Action.ofExcept_eq_ok.1 hreq
    exact ⟨r, w, hr, rfl, h⟩
  | some s =>
    obtain ⟨_, w₀, hchange, h⟩ := Action.bind_eq_ok.1 h
    obtain ⟨r, w₁, hreq, h⟩ := Action.bind_eq_ok.1 h
    obtain ⟨hr, rfl⟩ := Action.ofExcept_eq_ok.1 hreq
    exact ⟨r, w₀, hr, Action.changeParameters_eq_ok hchange, h⟩

theorem formulateNetwork_eq_ok (h : formulateNetwork solver settings a w = .ok f w') :
    ∃ r w₀, ({ a with settings := settings.getD .default } : BuildArguments α).request = .ok r ∧
      w₀.model = { w.model with parameters := w₀.model.parameters } ∧ r.build solver w₀ = .ok f w' := by
  obtain ⟨r, w₀, hreq, hw₀, h⟩ := formulateNetwork_run h
  exact ⟨r, w₀, hreq, congrArg Workspace.model hw₀, h⟩

end Run

/-- The parameters are no part of what the optima of a build cover. -/
theorem coversBeside_of_request {solver : Solver Rat} {settings : Option Settings} {a : BuildArguments Rat}
    {r : Request Rat} {w w₀ : Workspace Rat}
    (hreq : ({ a with settings := settings.getD .default } : BuildArguments Rat).request = .ok r)
    (hw₀ : w₀.model = { w.model with parameters := w₀.model.parameters }) (hm₀ : w₀.model.WellFormed)
    (hsound : solver.Sound)
    (hground : (settings.getD .default).relax = true → w.model.Gapped → solver.Grounded) :
    solver.CoversBeside r.settings.relax w₀.model := by
  refine hsound.coversBeside hm₀ fun hrelax hgapped => hground ?_ ?_
  · rw [(request_settings hreq).1] at hrelax
    exact hrelax
  · rw [hw₀] at hgapped
    exact hgapped

/-- With bounds on the output, a build assembles all rows and then bounds the hidden layers again. Whatever
the bounds, the range, the rest of the model and the subproblems that are not solved, the loop
neither cuts off a feasible assignment nor admits a new one. A relaxation that excludes the zero of a
semi-continuous variable may cut off contents that were there before, and then an optimal outcome has to mean
that the relaxed problem is feasible. -/
theorem retightening_neutral {solver : Solver Rat} {settings : Option Settings}
    {a : BuildArguments Rat} {f : Formulation Rat} {w w' : Workspace Rat} (hsound : solver.Sound)
    (hground : (settings.getD .default).relax = true → w.model.Gapped → solver.Grounded)
    (hm : w.model.WellFormed) (ha : a.Faithful) (hmode : Mode.ofValue a.mode = .ok .output)
    (h : formulateNetwork solver settings a w = .ok f w') :
    ∃ r w₀ s w₁ units table range,
      ({ a with settings := settings.getD .default } : BuildArguments Rat).request = .ok r ∧
      w₀.model = { w.model with parameters := w₀.model.parameters } ∧
      r.assemble solver w₀ = .ok s w₁ ∧
      retighten solver r 1 s.body.inputs r.network.hidden s.body.hidden s.table w₁ =
        .ok (units, table) w' ∧
      f = ⟨r.network, r.name, .output, table ++ [range], some { s.body with hidden := units }⟩ ∧
      Body.Stands w'.model r.network { s.body with hidden := units } table ∧
      ∀ x, w'.model.Feasible x ↔ w₁.model.Feasible x := by
  obtain ⟨r, w₀, hreq, hw₀, h⟩ := formulateNetwork_eq_ok h
  have hasks := request_eq_ok hreq
  have hr := hasks.wellFormed ha
  have hm₀ : w₀.model.WellFormed := by
    rw [hw₀]
    exact Model.wellFormed_parameters hm _
  rw [r.build_eq] at h
  obtain ⟨s, w₁, hs, h⟩ := Action.bind_eq_ok.1 h
  obtain ⟨stem, v, v', hass⟩ := assemble_eq_ok hs
  have hm₁ := (hass.adds hr).wellFormed hm₀
  obtain ⟨range, hp⟩ := hasks.plan_output hmode
  unfold Request.finish at h
  rw [hp] at h
  obtain ⟨⟨units, table⟩, w₂, hre, h⟩ := Action.bind_eq_ok.1 h
  obtain ⟨rfl, rfl⟩ := Action.pure_eq_ok.1 h
  have hstart : (s.body.withHidden ([] ++ s.body.hidden)).Stands w₁.model r.network ([] ++ s.table) :=
    hass.stands hr
  have hn : r.network.hidden = [] ++ r.network.hidden := rfl
  obtain ⟨-, hb⟩ := retighten_stands hn rfl rfl rfl hm₁ hstart hre
  have hcover := coversBeside_of_request hreq hw₀ hm₀ hsound hground
  have hfeas := hass.retighten_feasible hcover hr hm₀ hre
  exact ⟨r, w₀, s, w₁, units, table, range, hreq, hw₀, hs, hre, rfl, hb, hfeas⟩

/-- Here the range of the output is out of reach. -/
theorem retightening_neutral_absolute :
    ∃ f w', formulateNetwork .ideal none (.absolute "output") (.ofModel (.empty "model")) = .ok f w' ∧
      ∃ r w₀ s w₁ units table, r.assemble .ideal w₀ = .ok s w₁ ∧
        retighten .ideal r 1 s.body.inputs r.network.hidden s.body.hidden s.table w₁ =
          .ok (units, table) w' ∧
        ∀ x, w'.model.Feasible x ↔ w₁.model.Feasible x := by
  have hbuild : Action.succeeds (formulateNetwork .ideal none (.absolute "output"))
      (.ofModel (.empty "model")) = true := by decide +kernel
  obtain ⟨f, w', h⟩ := Action.exists_of_succeeds hbuild
  obtain ⟨r, w₀, s, w₁, units, table, range, -, -, hs, hre, -, -, hfeas⟩ :=
    retightening_neutral exact_ideal.sound (fun _ _ => exact_ideal.grounded) (Model.wellFormed_empty "model")
      (BuildArguments.faithful_absolute "output") (by decide +kernel) h
  exact ⟨f, w', h, r, w₀, s, w₁, units, table, hs, hre, hfeas⟩

end ReluMilp
