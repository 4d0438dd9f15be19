import ReluMilp.Proofs.Rectifying

/-!
# The values of a network in an assignment

* `Layer.forward_shape`, `forward_layers`, `Network.forward_shape` — the forward pass of a layer, of chained layers
  and of a network: what it makes of the shape of an array and of its rows; `Network.forward_ofVector` — on a
  single vector;
* `Body.Evaluates` — an assignment holds the evaluation of a network on its own input;
* `Body.Evaluates.outputs_eq`, `Body.Evaluates.forward_eq` — its outputs are those of the network;
* `Body.Evaluates.agree` — with the same input, two of them differ in binary variables only, and only
  where the affine value is zero;
* `exists_evaluation` — every input has one, with any choice there and any values elsewhere;
* `Body.Stands.evaluates` — what satisfies a network that stands in a model is one, whatever the table.
-/

namespace ReluMilp

open Scalar

/-! ### Forward passes -/

section Forward

variable {α : Type} [Scalar α]

omit [Scalar α] in
theorem Tensor.eq_of_entries {t u : Tensor α} (hs : t.shape = u.shape) (he : t.entries = u.entries) :
    t = u := by
  obtain ⟨ts, te, _⟩ := t
  obtain ⟨us, ue, _⟩ := u
  cases hs
  cases he
  rfl

omit [Scalar α] in
/-- A matrix has a row for each entry of its first dimension. -/
theorem length_rows_of_shape {t : Tensor α} {m n : Nat} (h : t.shape = [m, n]) : t.rows.length = m := by
  rw [Tensor.length_rows (show t.shape.getLast? = some n by rw [h]; rfl), h]
  exact Nat.mul_one m

omit [Scalar α] in
/-- Behind the first layer the chain goes on, and the next layer reads what the first one gives. -/
theorem Chained.tail {l : Layer α} {ls : List (Layer α)} {out : Layer α} (h : Chained ((l :: ls) ++ [out])) :
    Chained (ls ++ [out]) ∧ (ls.head?.getD out).inputs = l.outputs := by
  cases ls with
  | nil => exact ⟨trivial, h.1⟩
  | cons l' ls => exact ⟨h.2, h.1⟩

omit [Scalar α] in
theorem Network.inputs_eq (n : Network α) {l : Layer α} {ls : List (Layer α)}
    (h : n.layers = l :: ls) : n.inputs = l.inputs := by
  unfold Network.layers at h
  unfold Network.inputs
  cases hh : n.hidden with
  | nil =>
    rw [hh, List.nil_append] at h
    cases h
    rfl
  | cons l' ls' =>
    rw [hh] at h
    cases h
    rfl

omit [Scalar α] in
theorem length_of_vector {t : Tensor α} {k : Nat} (h : t.shape = [k]) : t.entries.length = k := by
  rw [t.length_eq, h]
  exact Nat.mul_one k

omit [Scalar α] in
/-- A vector is its only row. -/
theorem rows_of_vector {t : Tensor α} {k : Nat} (h : t.shape = [k]) : t.rows = [t.entries] := by
  unfold Tensor.rows
  rw [h]
  show [t.entries.take k] = [t.entries]
  rw [← length_of_vector h, List.take_length]

/-- A layer takes rows of its width to rows of its outputs, wherever they stand. -/
theorem Layer.forward_shape {l : Layer α} {t : Tensor α} {lead : List Nat} (h : t.shape = lead ++ [l.inputs]) :
    ∃ u, l.forward t = .ok u ∧ u.shape = lead ++ [l.outputs] ∧ u.rows = t.rows.map l.eval := by
  have hlast : t.shape.getLast? = some l.inputs := by rw [h, List.getLast?_concat]
  refine ⟨_, dif_pos hlast, ?_, Tensor.rows_ofRows _ _ _ _ _⟩
  show t.shape.dropLast ++ [l.outputs] = _
  rw [h, List.dropLast_concat]

/-- So do chained layers. -/
theorem forward_layers {ls : List (Layer α)} {o : Layer α} {t : Tensor α} {lead : List Nat}
    (hc : Chained (ls ++ [o])) (h : t.shape = lead ++ [(ls.head?.getD o).inputs]) :
    ∃ u, (ls ++ [o]).foldlM (fun x l => l.forward x) t = .ok u ∧ u.shape = lead ++ [o.outputs] ∧
      u.rows = t.rows.map fun v => (ls ++ [o]).foldl (fun x l => l.eval x) v := by
  induction ls generalizing t with
  | nil =>
    obtain ⟨u, hu, hshape, hrows⟩ := Layer.forward_shape h
    refine ⟨u, ?_, hshape, hrows⟩
    rw [List.nil_append, List.foldlM_cons]
    exact Except.bind_eq_ok.2 ⟨u, hu, rfl⟩
  | cons l ls ih =>
    obtain ⟨hrest, hnext⟩ := hc.tail
    obtain ⟨v, hv, hshape, hrows⟩ := Layer.forward_shape (l := l) h
    rw [← hnext] at hshape
    obtain ⟨u, hu, hushape, hurows⟩ := ih hrest hshape
    refine ⟨u, ?_, hushape, ?_⟩
    · rw [List.cons_append, List.foldlM_cons]
      exact Except.bind_eq_ok.2 ⟨v, hv, hu⟩
    · rw [hurows, hrows, List.map_map]
      rfl

/-- A network takes rows of its width to rows of its outputs, each of them evaluated. -/
theorem Network.forward_shape {n : Network α} {t : Tensor α} {lead : List Nat}
    (h : t.shape = lead ++ [n.inputs]) :
    ∃ u, n.forward t = .ok u ∧ u.shape = lead ++ [n.outputs] ∧ u.rows = t.rows.map n.eval :=
  forward_layers n.chained h

/-- The forward pass on a vector is the evaluation of the network. -/
theorem Network.forward_ofVector (n : Network α) {v : List α} (h : v.length = n.inputs) :
    n.forward (Tensor.ofVector v) = .ok (Tensor.ofVector (n.eval v)) := by
  have hv : (Tensor.ofVector v).shape = [] ++ [n.inputs] := congrArg (fun k => [k]) h
  obtain ⟨u, hu, hshape, hrows⟩ := n.forward_shape hv
  rw [rows_of_vector hshape, rows_of_vector hv] at hrows
  have hentries : u.entries = n.eval v := (List.cons.inj hrows).1
  rw [hu]
  congr 1
  refine Tensor.eq_of_entries (hshape.trans ?_) hentries
  show [n.outputs] = [(n.eval v).length]
  rw [← hentries, length_of_vector hshape]

end Forward

/-! ### Assignments that evaluate a network -/

/-- The values of an assignment are those of the network on its own input. -/
structure Body.Evaluates (b : Body) (n : Network Rat) (x : Assignment Rat) : Prop where
  hidden : Along (HiddenUnit.Rectifies x) b.inputs n.hidden b.hidden
  outputs : b.outputs.map x = n.output.preactivations ((lastVars b.inputs b.hidden).map x)

variable {x y : Assignment Rat} {prev : List VarId}

theorem map_value_eq {l : Layer Rat} {us : List HiddenUnit} (hl : l.activation = .relu)
    (h : List.Forall₂ (HiddenUnit.Rectifies x prev) l.neurons us) :
    (us.map (·.x)).map x = l.eval (prev.map x) := by
  unfold Layer.eval Layer.preactivations
  rw [hl]
  generalize l.neurons = ns at h
  induction h with
  | nil => rfl
  | cons hr _ ih =>
    rw [List.map_cons, List.map_cons, List.map_cons, List.map_cons, ih, hr.value]
    rw [Activation.apply, relu_eq_max, max_comm]

theorem map_lastVars_eq {ls : List (Layer Rat)} {uss : List (List HiddenUnit)}
    (hl : ∀ l ∈ ls, l.activation = .relu) (h : Along (HiddenUnit.Rectifies x) prev ls uss) :
    (lastVars prev uss).map x = ls.foldl (fun v l => l.eval v) (prev.map x) := by
  induction h with
  | nil => rfl
  | cons hlayer _ ih =>
    rw [lastVars, ih fun l hmem => hl l (List.mem_cons_of_mem _ hmem), List.foldl_cons,
      map_value_eq (hl _ List.mem_cons_self) hlayer]

namespace Body.Evaluates

variable {b : Body} {n : Network Rat}

/-- The outputs are those of the network. -/
theorem outputs_eq (h : b.Evaluates n x) : b.outputs.map x = n.eval (b.inputs.map x) := by
  rw [h.outputs, map_lastVars_eq n.hidden_relu h.hidden, Network.eval, Network.layers, List.foldl_append]
  show _ = n.output.eval _
  rw [Layer.eval, n.output_identity]
  exact (List.map_id' _).symm

/-- The outputs are those of a forward pass. -/
theorem forward_eq (h : b.Evaluates n x) (hlen : b.inputs.length = n.inputs) :
    n.forward (Tensor.ofVector (b.inputs.map x)) = .ok (Tensor.ofVector (b.outputs.map x)) := by
  rw [h.outputs_eq]
  exact n.forward_ofVector ((List.length_map _).trans hlen)

end Body.Evaluates

/-! ### Uniqueness -/

/-- Two assignments agree at a hidden neuron, but for its binary variable where the affine value is
zero. -/
structure HiddenUnit.Agrees (x y : Assignment Rat) (prev : List VarId) (n : Neuron Rat)
    (u : HiddenUnit) : Prop where
  value : x u.x = y u.x
  slack : x u.s = y u.s
  switch : n.preactivation (prev.map x) ≠ 0 → x u.z = y u.z

theorem HiddenUnit.Rectifies.agrees {n : Neuron Rat} {u : HiddenUnit} (h : u.Rectifies x prev n)
    (h' : u.Rectifies y prev n) (hp : prev.map x = prev.map y) : u.Agrees x y prev n := by
  unfold HiddenUnit.Rectifies at h'
  rw [← hp] at h'
  refine ⟨h.value.trans h'.value.symm, h.slack.trans h'.slack.symm, fun hne => ?_⟩
  rcases lt_or_gt_of_ne hne with hneg | hpos
  · exact (h.inactive hneg).trans (h'.inactive hneg).symm
  · exact (h.active hpos).trans (h'.active hpos).symm

theorem agrees_layer {ns : List (Neuron Rat)} {us : List HiddenUnit}
    (h : List.Forall₂ (HiddenUnit.Rectifies x prev) ns us)
    (h' : List.Forall₂ (HiddenUnit.Rectifies y prev) ns us) (hp : prev.map x = prev.map y) :
    List.Forall₂ (HiddenUnit.Agrees x y prev) ns us ∧ (us.map (·.x)).map x = (us.map (·.x)).map y := by
  induction h with
  | nil => exact ⟨.nil, rfl⟩
  | cons hr _ ih =>
    cases h' with
    | cons hr' hrest' =>
      obtain ⟨hs, hmap⟩ := ih hrest'
      have ha := hr.agrees hr' hp
      refine ⟨.cons ha hs, ?_⟩
      rw [List.map_cons, List.map_cons, List.map_cons, hmap, ha.value]

theorem agrees_hidden {ls : List (Layer Rat)} {uss : List (List HiddenUnit)}
    (h : Along (HiddenUnit.Rectifies x) prev ls uss) (h' : Along (HiddenUnit.Rectifies y) prev ls uss)
    (hp : prev.map x = prev.map y) :
    Along (HiddenUnit.Agrees x y) prev ls uss ∧ (lastVars prev uss).map x = (lastVars prev uss).map y := by
  induction h with
  | nil => exact ⟨.nil, hp⟩
  | cons hl _ ih =>
    cases h' with
    | cons hl' hrest' =>
      obtain ⟨ha, hmap⟩ := agrees_layer hl hl' hp
      obtain ⟨hs, hlast⟩ := ih hrest' hmap
      exact ⟨.cons ha hs, hlast⟩

/-- Two evaluations of one input differ in binary variables only. -/
theorem Body.Evaluates.agree {b : Body} {n : Network Rat} (h : b.Evaluates n x) (h' : b.Evaluates n y)
    (hp : b.inputs.map x = b.inputs.map y) :
    Along (HiddenUnit.Agrees x y) b.inputs n.hidden b.hidden ∧ b.outputs.map x = b.outputs.map y := by
  obtain ⟨ha, hlast⟩ := agrees_hidden h.hidden h'.hidden hp
  exact ⟨ha, by rw [h.outputs, h'.outputs, hlast]⟩

/-! ### Existence -/

/-- Distinct variables take any values, and the others stay. -/
theorem exists_assignment {ids : List VarId} {vals : List Rat} (h : ids.Nodup)
    (hlen : vals.length = ids.length) (x₀ : Assignment Rat) :
    ∃ x : Assignment Rat, ids.map x = vals ∧ ∀ id ∉ ids, x id = x₀ id := by
  induction ids generalizing vals with
  | nil =>
    rw [List.length_nil, List.length_eq_zero_iff] at hlen
    rw [hlen]
    exact ⟨x₀, rfl, fun _ _ => rfl⟩
  | cons id ids ih =>
    cases vals with
    | nil => cases hlen
    | cons a vals =>
      obtain ⟨hid, hnodup⟩ := List.nodup_cons.1 h
      obtain ⟨x, hx, hoff⟩ := ih hnodup (Nat.succ.inj hlen)
      refine ⟨fun k => if k = id then a else x k, ?_, ?_⟩
      · rw [List.map_cons, if_pos rfl, ← hx]
        congr 1
        apply List.map_congr_left
        intro k hk
        exact if_neg (ne_of_mem_of_not_mem hk hid)
      · intro k hk
        rw [List.mem_cons, not_or] at hk
        show (if k = id then a else x k) = x₀ k
        rw [if_neg hk.1]
        exact hoff k hk.2

/-- The binary value of a neuron with an affine value, a choice where that is zero. -/
def switchAt (p : Rat) (on : Bool) : Rat := if 0 < p then 0 else if p < 0 then 1 else if on then 1 else 0

/-- The values of the rectifier with a choice. -/
theorem rectifies_switchAt (p : Rat) (on : Bool) :
    Rectifies p (max 0 p) (max 0 (-p)) (switchAt p on) := by
  unfold switchAt
  refine ⟨rfl, rfl, ?_, fun hpos => if_pos hpos, fun hneg => ?_⟩
  · split
    · exact .inl rfl
    · split
      · exact .inr rfl
      · cases on
        · exact .inl rfl
        · exact .inr rfl
  · rw [if_neg (not_lt.2 hneg.le), if_pos hneg]

/-- A hidden neuron evaluates, its binary variable chosen where the affine value is zero. -/
structure HiddenUnit.Chosen (on : VarId → Bool) (x : Assignment Rat) (prev : List VarId)
    (n : Neuron Rat) (u : HiddenUnit) : Prop where
  rectifies : u.Rectifies x prev n
  choice : x u.z = switchAt (n.preactivation (prev.map x)) (on u.z)

theorem HiddenUnit.Chosen.congr {on : VarId → Bool} {n : Neuron Rat} {u : HiddenUnit}
    (h : u.Chosen on x prev n) (hp : ∀ id ∈ prev, y id = x id) (hu : ∀ id ∈ u.vars, y id = x id) :
    u.Chosen on y prev n := by
  have hx := hu u.x List.mem_cons_self
  have hs := hu u.s (List.mem_cons_of_mem _ List.mem_cons_self)
  have hz := hu u.z (List.mem_cons_of_mem _ (List.mem_cons_of_mem _ List.mem_cons_self))
  have hprev : prev.map y = prev.map x := List.map_congr_left hp
  obtain ⟨hr, hc⟩ := h
  unfold HiddenUnit.Rectifies at hr
  rw [← hx, ← hs, ← hz, ← hprev] at hr
  rw [← hz, ← hprev] at hc
  exact ⟨hr, hc⟩

theorem chosen_of_map {on : VarId → Bool} {ns : List (Neuron Rat)} {us : List HiddenUnit}
    (hx : (us.map (·.x)).map x = ns.map fun n => max 0 (n.preactivation (prev.map x)))
    (hs : (us.map (·.s)).map x = ns.map fun n => max 0 (-n.preactivation (prev.map x)))
    (hz : (us.map (·.z)).map x =
      List.zipWith (fun n u => switchAt (n.preactivation (prev.map x)) (on u.z)) ns us) :
    List.Forall₂ (HiddenUnit.Chosen on x prev) ns us := by
  induction ns generalizing us with
  | nil =>
    cases us with
    | nil => exact .nil
    | cons u us => cases hx
  | cons n ns ih =>
    cases us with
    | nil => cases hx
    | cons u us =>
      obtain ⟨hx₁, hx⟩ := List.cons.inj hx
      obtain ⟨hs₁, hs⟩ := List.cons.inj hs
      obtain ⟨hz₁, hz⟩ := List.cons.inj hz
      refine .cons ⟨?_, hz₁⟩ (ih hx hs hz)
      unfold HiddenUnit.Rectifies
      rw [hx₁, hs₁, hz₁]
      exact rectifies_switchAt _ _

theorem exists_layer {ns : List (Neuron Rat)} {us : List HiddenUnit} (hlen : us.length = ns.length)
    (hnodup : (Body.unitVars us).Nodup) (hprev : ∀ id ∈ prev, id ∉ Body.unitVars us)
    (on : VarId → Bool) (x₀ : Assignment Rat) :
    ∃ x, List.Forall₂ (HiddenUnit.Chosen on x prev) ns us ∧ ∀ id ∉ Body.unitVars us, x id = x₀ id := by
  have hvals : ((ns.map fun n => max 0 (n.preactivation (prev.map x₀))) ++
      (ns.map fun n => max 0 (-n.preactivation (prev.map x₀))) ++
      List.zipWith (fun n u => switchAt (n.preactivation (prev.map x₀)) (on u.z)) ns us).length =
      (Body.unitVars us).length := by
    simp only [Body.unitVars, List.length_append, List.length_map, List.length_zipWith, hlen, min_self]
  obtain ⟨x, hx, hoff⟩ := exists_assignment hnodup hvals x₀
  refine ⟨x, ?_, hoff⟩
  -- the variables that the layer reads keep their values
  have hread : prev.map x = prev.map x₀ := List.map_congr_left fun id hid => hoff id (hprev id hid)
  unfold Body.unitVars at hx
  rw [List.map_append, List.map_append, ← hread] at hx
  obtain ⟨hxs, hz⟩ := List.append_inj hx (by
    simp only [List.length_append, List.length_map, hlen])
  obtain ⟨hx, hs⟩ := List.append_inj hxs (by simp only [List.length_map, hlen])
  exact chosen_of_map hx hs hz

theorem exists_hidden {ls : List (Layer Rat)} {uss : List (List HiddenUnit)}
    (hshape : Along (fun _ _ _ => True) prev ls uss) (hnodup : (uss.flatMap Body.unitVars).Nodup)
    (hprev : ∀ id ∈ prev, id ∉ uss.flatMap Body.unitVars) (on : VarId → Bool) (x₀ : Assignment Rat) :
    ∃ x, Along (HiddenUnit.Chosen on x) prev ls uss ∧
      ∀ id ∉ uss.flatMap Body.unitVars, x id = x₀ id := by
  induction hshape generalizing x₀ with
  | nil => exact ⟨x₀, .nil, fun _ _ => rfl⟩
  | @cons prev l us ls uss hl _ ih =>
    rw [List.flatMap_cons] at hnodup hprev
    obtain ⟨hus, huss, hdisj⟩ := List.nodup_append'.1 hnodup
    obtain ⟨x₁, hlayer, hoff₁⟩ := exists_layer hl.length_eq.symm hus
      (fun id hid h => hprev id hid (List.mem_append_left _ h)) on x₀
    obtain ⟨x, hrest, hoff⟩ := ih huss (fun id hid h => hdisj (mem_xs_unitVars hid) h) x₁
    refine ⟨x, .cons ?_ hrest, ?_⟩
    · refine forall₂_imp_mem hlayer fun n u hu hc => hc.congr ?_ ?_
      · exact fun id hid => hoff id fun h => hprev id hid (List.mem_append_right _ h)
      · exact fun id hid => hoff id (hdisj (mem_unitVars_iff.2 ⟨u, hu, hid⟩))
    · intro id hid
      rw [List.flatMap_cons, List.mem_append, not_or] at hid
      exact (hoff id hid.2).trans (hoff₁ id hid.1)

theorem mem_lastVars {uss : List (List HiddenUnit)} {id : VarId} (h : id ∈ lastVars prev uss) :
    id ∈ prev ++ uss.flatMap Body.unitVars := by
  induction uss generalizing prev with
  | nil => exact List.mem_append_left _ h
  | cons us uss ih =>
    rw [List.flatMap_cons]
    rcases List.mem_append.1 (ih h) with hid | hid
    · exact List.mem_append_right _ (List.mem_append_left _ (mem_xs_unitVars hid))
    · exact List.mem_append_right _ (List.mem_append_right _ hid)

theorem Along.chosen_congr {on : VarId → Bool} {ls : List (Layer Rat)} {uss : List (List HiddenUnit)}
    (h : Along (HiddenUnit.Chosen on x) prev ls uss)
    (hxy : ∀ id ∈ prev ++ uss.flatMap Body.unitVars, y id = x id) :
    Along (HiddenUnit.Chosen on y) prev ls uss := by
  induction h with
  | nil => exact .nil
  | @cons prev l us ls uss hl _ ih =>
    rw [List.flatMap_cons] at hxy
    refine .cons (forall₂_imp_mem hl fun n u hu hc => hc.congr ?_ ?_) (ih ?_)
    · exact fun id hid => hxy id (List.mem_append_left _ hid)
    · exact fun id hid => hxy id (List.mem_append_right _
        (List.mem_append_left _ (mem_unitVars_iff.2 ⟨u, hu, hid⟩)))
    · intro id hid
      refine hxy id (List.mem_append_right _ ?_)
      rcases List.mem_append.1 hid with hid | hid
      · exact List.mem_append_left _ (mem_xs_unitVars hid)
      · exact List.mem_append_right _ hid

/-- The variables of a body have the shape of a network: as many as it has neurons. -/
structure Body.Shaped (b : Body) (n : Network Rat) : Prop where
  inputs : b.inputs.length = n.inputs
  hidden : Along (fun _ _ _ => True) b.inputs n.hidden b.hidden
  outputs : b.outputs.length = n.outputs
  vars_nodup : b.vars.Nodup

/-- Every input has an evaluation, with any choice of the binary variables at zero and any values of
the variables elsewhere. -/
theorem exists_evaluation {b : Body} {n : Network Rat} (hb : b.Shaped n) {v : List Rat}
    (hv : v.length = n.inputs) (on : VarId → Bool) (x₀ : Assignment Rat) :
    ∃ x, b.Evaluates n x ∧ Along (HiddenUnit.Chosen on x) b.inputs n.hidden b.hidden ∧
      b.inputs.map x = v ∧ ∀ id ∉ b.vars, x id = x₀ id := by
  have hnodup := hb.vars_nodup
  unfold Body.vars at hnodup
  obtain ⟨hih, ho, hdisj⟩ := List.nodup_append'.1 hnodup
  obtain ⟨hi, hh, hdisj'⟩ := List.nodup_append'.1 hih
  obtain ⟨x₁, hx₁, hoff₁⟩ := exists_assignment hi (hv.trans hb.inputs.symm) x₀
  obtain ⟨x₂, hx₂, hoff₂⟩ := exists_hidden hb.hidden hh (fun id hid => hdisj' hid) on x₁
  have hlen : (n.output.preactivations ((lastVars b.inputs b.hidden).map x₂)).length =
      b.outputs.length := by
    rw [Layer.length_preactivations, hb.outputs]
    rfl
  obtain ⟨x, hx, hoff⟩ := exists_assignment ho hlen x₂
  -- the outputs are the last variables that get a value, and no other part has them
  have hkeep : ∀ id ∈ b.inputs ++ b.hidden.flatMap Body.unitVars, x id = x₂ id :=
    fun id hid => hoff id (hdisj hid)
  have hin : b.inputs.map x = v := by
    rw [← hx₁]
    apply List.map_congr_left
    intro id hid
    rw [hkeep id (List.mem_append_left _ hid), hoff₂ id (hdisj' hid)]
  have hlast : (lastVars b.inputs b.hidden).map x = (lastVars b.inputs b.hidden).map x₂ :=
    List.map_congr_left fun id hid => hkeep id (mem_lastVars hid)
  have hchosen : Along (HiddenUnit.Chosen on x) b.inputs n.hidden b.hidden :=
    hx₂.chosen_congr hkeep
  refine ⟨x, ⟨hchosen.imp fun p n u h => h.rectifies, ?_⟩, hchosen, hin, ?_⟩
  · rw [hx, hlast]
  · intro id hid
    unfold Body.vars at hid
    rw [List.mem_append, List.mem_append, not_or, not_or] at hid
    rw [hoff id hid.2, hoff₂ id hid.1.2, hoff₁ id hid.1.1]

/-! ### Bodies with the same variables -/

/-- Two bodies with the same variables at every place; their rows may differ. -/
structure Body.SameVars (b b' : Body) : Prop where
  inputs : b'.inputs = b.inputs
  hidden : b'.hidden.map (·.map HiddenUnit.vars) = b.hidden.map (·.map HiddenUnit.vars)
  outputs : b'.outputs = b.outputs

theorem map_of_map_vars {β : Type} {us us' : List HiddenUnit} {f : HiddenUnit → β}
    (hf : ∀ u u' : HiddenUnit, u'.vars = u.vars → f u' = f u)
    (h : us'.map HiddenUnit.vars = us.map HiddenUnit.vars) : us'.map f = us.map f := by
  induction us generalizing us' with
  | nil =>
    rw [List.map_nil, List.map_eq_nil_iff] at h
    rw [h]
  | cons u us ih =>
    cases us' with
    | nil => cases h
    | cons u' us' =>
      obtain ⟨hu, h⟩ := List.cons.inj h
      rw [List.map_cons, List.map_cons, hf u u' hu, ih h]

theorem map_x_of_map_vars {us us' : List HiddenUnit}
    (h : us'.map HiddenUnit.vars = us.map HiddenUnit.vars) : us'.map (·.x) = us.map (·.x) :=
  map_of_map_vars (fun _ _ hv => (List.cons.inj hv).1) h

theorem lastVars_of_map_vars {prev : List VarId} {uss uss' : List (List HiddenUnit)}
    (h : uss'.map (·.map HiddenUnit.vars) = uss.map (·.map HiddenUnit.vars)) :
    lastVars prev uss' = lastVars prev uss := by
  induction uss generalizing uss' prev with
  | nil =>
    rw [List.map_nil, List.map_eq_nil_iff] at h
    rw [h]
  | cons us uss ih =>
    cases uss' with
    | nil => cases h
    | cons us' uss' =>
      obtain ⟨hus, h⟩ := List.cons.inj h
      rw [lastVars, lastVars, map_x_of_map_vars hus, ih h]

theorem rectifies_of_map_vars {x : Assignment Rat} {prev : List VarId} {ns : List (Neuron Rat)}
    {us us' : List HiddenUnit} (h : List.Forall₂ (HiddenUnit.Rectifies x prev) ns us)
    (hv : us'.map HiddenUnit.vars = us.map HiddenUnit.vars) :
    List.Forall₂ (HiddenUnit.Rectifies x prev) ns us' := by
  induction h generalizing us' with
  | nil =>
    rw [List.map_nil, List.map_eq_nil_iff] at hv
    rw [hv]
    exact .nil
  | @cons n u ns us hu _ ih =>
    cases us' with
    | nil => cases hv
    | cons u' us' =>
      obtain ⟨hvars, hv⟩ := List.cons.inj hv
      obtain ⟨hx, hvars⟩ := List.cons.inj hvars
      obtain ⟨hs, hvars⟩ := List.cons.inj hvars
      obtain ⟨hz, -⟩ := List.cons.inj hvars
      refine .cons ?_ (ih hv)
      unfold HiddenUnit.Rectifies at hu ⊢
      rw [hx, hs, hz]
      exact hu

theorem Along.of_map_vars {x : Assignment Rat} {prev : List VarId} {ls : List (Layer Rat)}
    {uss uss' : List (List HiddenUnit)} (h : Along (HiddenUnit.Rectifies x) prev ls uss)
    (hv : uss'.map (·.map HiddenUnit.vars) = uss.map (·.map HiddenUnit.vars)) :
    Along (HiddenUnit.Rectifies x) prev ls uss' := by
  induction h generalizing uss' with
  | nil =>
    rw [List.map_nil, List.map_eq_nil_iff] at hv
    rw [hv]
    exact .nil
  | @cons prev l us ls uss hl _ ih =>
    cases uss' with
    | nil => cases hv
    | cons us' uss' =>
      obtain ⟨hus, hv⟩ := List.cons.inj hv
      have hrest := ih hv
      rw [← map_x_of_map_vars hus] at hrest
      exact .cons (rectifies_of_map_vars hl hus) hrest

/-- Bodies with the same variables evaluate in the same assignments. -/
theorem Body.SameVars.evaluates {b b' : Body} (h : b.SameVars b') {n : Network Rat}
    {x : Assignment Rat} (hx : b.Evaluates n x) : b'.Evaluates n x := by
  refine ⟨?_, ?_⟩
  · rw [h.inputs]
    exact hx.hidden.of_map_vars h.hidden
  · rw [h.inputs, h.outputs, lastVars_of_map_vars h.hidden]
    exact hx.outputs

theorem Body.SameVars.symm {b b' : Body} (h : b.SameVars b') : b'.SameVars b :=
  ⟨h.inputs.symm, h.hidden.symm, h.outputs.symm⟩

theorem Body.SameVars.vars_eq {b b' : Body} (h : b.SameVars b') : b'.vars = b.vars := by
  have hunit : ∀ {us us' : List HiddenUnit}, us'.map HiddenUnit.vars = us.map HiddenUnit.vars →
      Body.unitVars us' = Body.unitVars us := by
    intro us us' hus
    unfold Body.unitVars
    rw [map_x_of_map_vars hus,
      map_of_map_vars (f := (·.s)) (fun _ _ hv => (List.cons.inj (List.cons.inj hv).2).1) hus,
      map_of_map_vars (f := (·.z))
        (fun _ _ hv => (List.cons.inj (List.cons.inj (List.cons.inj hv).2).2).1) hus]
  have hhidden : ∀ {uss uss' : List (List HiddenUnit)},
      uss'.map (·.map HiddenUnit.vars) = uss.map (·.map HiddenUnit.vars) →
      uss'.flatMap Body.unitVars = uss.flatMap Body.unitVars := by
    intro uss
    induction uss with
    | nil =>
      intro uss' hv
      rw [List.map_nil, List.map_eq_nil_iff] at hv
      rw [hv]
    | cons us uss ih =>
      intro uss' hv
      cases uss' with
      | nil => cases hv
      | cons us' uss' =>
        obtain ⟨hus, hv⟩ := List.cons.inj hv
        rw [List.flatMap_cons, List.flatMap_cons, hunit hus, ih hv]
  unfold Body.vars
  rw [h.inputs, h.outputs, hhidden h.hidden]

/-! ### Networks that stand in a model -/

section Stands

variable {m : Model Rat} {n : Network Rat} {b : Body} {table : List (List (Interval Rat))}

theorem Body.Stands.shaped (h : b.Stands m n table) : b.Shaped n where
  inputs := h.inputs_length
  hidden := h.hidden.along fun _ _ _ _ _ => trivial
  outputs := h.output_rows.length_middle
  vars_nodup := h.vars_nodup

/-- What satisfies a network that stands in a model: the rows of the hidden neurons, and the affine
values of the outputs. -/
theorem Body.Stands.satisfiedOn_iff (h : b.Stands m n table) (hm : m.WellFormed) :
    m.SatisfiedOn (b.hidden.flatMap Body.unitVars ++ b.outputs)
        (b.hidden.flatMap Body.unitRows ++ b.outputRows) x ↔
      Layerwise (HiddenUnit.BigM x) b.inputs n.hidden b.hidden table ∧
        b.outputs.map x = n.output.preactivations ((lastVars b.inputs b.hidden).map x) := by
  rw [Model.satisfiedOn_append, satisfiedOn_hidden h.hidden hm,
    satisfiedOn_output h.outputs h.output_rows hm]
  exact Iff.rfl

/-- Whatever the table, an assignment that satisfies the variables and rows of a network evaluates the
network. -/
theorem Body.Stands.evaluates (h : b.Stands m n table) (hm : m.WellFormed)
    (hx : m.SatisfiedOn b.vars b.rows x) : b.Evaluates n x := by
  have hpart : m.SatisfiedOn (b.hidden.flatMap Body.unitVars ++ b.outputs)
      (b.hidden.flatMap Body.unitRows ++ b.outputRows) x := by
    refine hx.mono ?_ ?_
    · unfold Body.vars
      rw [List.append_assoc]
      exact List.subset_append_right _ _
    · unfold Body.rows
      rw [List.append_assoc b.inputRows]
      exact List.Subset.trans (List.subset_append_right _ _) (List.subset_append_left _ _)
  obtain ⟨hhidden, hout⟩ := (h.satisfiedOn_iff hm).1 hpart
  exact ⟨hhidden.along fun _ _ _ _ hu => BigM.rectifies hu, hout⟩

end Stands

end ReluMilp
