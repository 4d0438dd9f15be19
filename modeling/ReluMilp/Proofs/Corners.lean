import ReluMilp.Proofs.Strength

/-!
# The bounds of one layer are exact

An affine value over a box is largest in the corner that takes the upper end of an interval where the weight is
not negative and the lower end elsewhere, and smallest in the opposite one. So the bounds of one layer leave
nothing to tighten.

* `Interval.peak`, `corner` — the end and the corner that weights choose; `dot_corner`, `dot_corner_neg` —
  the weighted sum takes its bounds there;
* `Interval.Sharp`, `Neuron.interval_sharp` — the interval of a neuron is from the smallest to the largest of
  its values over a box, which corners take, also where the box is given before the rectifier;
* `propagateArrays_matrix` — the bounds of arrays are those of neurons;
* `improve_extremes`, `Request.Assembles.readings_boxed`, `layerBounds_first` — optimisation finds no better
  bounds for a layer that reads the inputs;
* `Request.build_first` — the first layer of a build with optimisation and of one without it;
* `one_layer_exact` — the bounds of one layer, and those of the first layer of two builds.
-/

namespace ReluMilp

open Scalar

/-! ### Corners -/

namespace Interval

/-- The end of an interval where the product with a weight is largest. -/
def peak (w : Rat) (i : Interval Rat) : Rat := if 0 ≤ w then i.upper else i.lower

/-- One of the ends of an interval. -/
def IsEnd (i : Interval Rat) (a : Rat) : Prop := a = i.lower ∨ a = i.upper

variable {i : Interval Rat}

theorem isEnd_peak (w : Rat) (i : Interval Rat) : i.IsEnd (peak w i) := by
  unfold peak
  split
  · exact .inr rfl
  · exact .inl rfl

theorem IsEnd.has {a : Rat} (h : i.IsEnd a) (hi : i.lower ≤ i.upper) : i.Has a := by
  rcases h with rfl | rfl
  · exact ⟨le_rfl, hi⟩
  · exact ⟨hi, le_rfl⟩

theorem mul_peak (hi : i.lower ≤ i.upper) (w : Rat) : w * peak w i = (scale w i).upper := by
  show _ = larger (w * i.upper) (w * i.lower)
  rw [larger_eq_max]
  unfold peak
  split
  · rename_i hw
    exact (max_eq_left (mul_le_mul_of_nonneg_left hi hw)).symm
  · rename_i hw
    exact (max_eq_right (mul_le_mul_of_nonpos_left hi (not_le.1 hw).le)).symm

/-- Where the opposite weight has the largest product, the weight has the smallest one. -/
theorem mul_peak_neg (hi : i.lower ≤ i.upper) (w : Rat) : w * peak (-w) i = (scale w i).lower := by
  show _ = smaller (w * i.upper) (w * i.lower)
  rw [smaller_eq_min]
  unfold peak
  split
  · rename_i hw
    exact (min_eq_left (mul_le_mul_of_nonpos_left hi (neg_nonneg.1 hw))).symm
  · rename_i hw
    have hpos : 0 ≤ w := (neg_neg_iff_pos.1 (not_le.1 hw)).le
    exact (min_eq_right (mul_le_mul_of_nonneg_left hi hpos)).symm

/-- The rectifier takes ends to ends. -/
theorem peak_clamp (w : Rat) (i : Interval Rat) : peak w i.clamp = relu (peak w i) := by
  unfold peak
  split
  · rfl
  · rfl

end Interval

/-- The corner of a box where a weighted sum is largest. -/
def corner (ws : List Rat) (is : List (Interval Rat)) : List Rat := List.zipWith Interval.peak ws is

section Corner

variable {ws : List Rat} {is : List (Interval Rat)}

theorem corner_isEnd (h : ws.length = is.length) : List.Forall₂ Interval.IsEnd is (corner ws is) := by
  induction is generalizing ws with
  | nil =>
    unfold corner
    rw [List.zipWith_nil_right]
    exact .nil
  | cons i is ih =>
    cases ws with
    | nil => cases h
    | cons w ws => exact .cons (Interval.isEnd_peak w i) (ih (Nat.succ.inj h))

/-- A weighted sum takes its upper bound in the corner. -/
theorem dot_corner (hproper : ∀ i ∈ is, i.lower ≤ i.upper) (ws : List Rat) :
    dot ws (corner ws is) = (Interval.weighted ws is).upper := by
  induction is generalizing ws with
  | nil =>
    unfold corner Interval.weighted
    rw [List.zipWith_nil_right, List.zipWith_nil_right]
    exact dot_nil_right ws
  | cons i is ih =>
    cases ws with
    | nil => rfl
    | cons w ws =>
      obtain ⟨hi, his⟩ := List.forall_mem_cons.1 hproper
      show w * Interval.peak w i + dot ws (corner ws is) = _
      rw [ih his, Interval.mul_peak hi]
      rfl

/-- It takes its lower bound in the opposite corner. -/
theorem dot_corner_neg (hproper : ∀ i ∈ is, i.lower ≤ i.upper) (ws : List Rat) :
    dot ws (corner (ws.map (- ·)) is) = (Interval.weighted ws is).lower := by
  induction is generalizing ws with
  | nil =>
    unfold corner Interval.weighted
    rw [List.zipWith_nil_right, List.zipWith_nil_right]
    exact dot_nil_right ws
  | cons i is ih =>
    cases ws with
    | nil => rfl
    | cons w ws =>
      obtain ⟨hi, his⟩ := List.forall_mem_cons.1 hproper
      show w * Interval.peak (-w) i + dot ws (corner (ws.map (- ·)) is) = _
      rw [ih his, Interval.mul_peak_neg hi]
      rfl

theorem corner_clamp (ws : List Rat) (is : List (Interval Rat)) :
    corner ws (is.map Interval.clamp) = (corner ws is).map relu := by
  unfold corner
  rw [List.zipWith_map_right, List.map_zipWith]
  simp only [Interval.peak_clamp]

end Corner

/-! ### One neuron over a box -/

/-- What a layer reads of vectors, which may have to pass the rectifier first. -/
def passed (rectified : Bool) (v : List Rat) : List Rat := if rectified then v.map relu else v

/-- An interval from the smallest to the largest value of a function over a box, both taken in corners. -/
structure Interval.Sharp (box : List (Interval Rat)) (f : List Rat → Rat) (i : Interval Rat) : Prop where
  spans : i.Spans (f '' {v | List.Forall₂ Interval.Has box v})
  upper : ∃ v, List.Forall₂ Interval.IsEnd box v ∧ f v = i.upper
  lower : ∃ v, List.Forall₂ Interval.IsEnd box v ∧ f v = i.lower

section Neurons

variable {box : List (Interval Rat)}

theorem forall₂_has_of_isEnd {v : List Rat} (hproper : ∀ i ∈ box, i.lower ≤ i.upper)
    (h : List.Forall₂ Interval.IsEnd box v) : List.Forall₂ Interval.Has box v := by
  induction h with
  | nil => exact .nil
  | cons hi _ ih =>
    obtain ⟨hp, hps⟩ := List.forall_mem_cons.1 hproper
    exact .cons (hi.has hp) (ih hps)

/-- Bounds that corners take are sharp. -/
theorem Interval.sharp_of_corners {f : List Rat → Rat} {i : Interval Rat}
    (hproper : ∀ i ∈ box, i.lower ≤ i.upper) (hhas : ∀ v, List.Forall₂ Interval.Has box v → i.Has (f v))
    {high low : List Rat} (hhigh : List.Forall₂ Interval.IsEnd box high) (hupper : f high = i.upper)
    (hlow : List.Forall₂ Interval.IsEnd box low) (hlower : f low = i.lower) : i.Sharp box f := by
  refine ⟨⟨⟨?_, ?_⟩, ?_, ?_⟩, ⟨high, hhigh, hupper⟩, low, hlow, hlower⟩
  · exact ⟨high, forall₂_has_of_isEnd hproper hhigh, hupper⟩
  · rintro _ ⟨v, hv, rfl⟩
    exact (hhas v hv).2
  · exact ⟨low, forall₂_has_of_isEnd hproper hlow, hlower⟩
  · rintro _ ⟨v, hv, rfl⟩
    exact (hhas v hv).1

/-- Vectors in a box are passed on in what the box leaves after the rectifier. -/
theorem encloses_passed {v : List Rat} (rectified : Bool) (h : List.Forall₂ Interval.Has box v) :
    Encloses rectified box (passed rectified v) := by
  cases rectified with
  | false => exact h
  | true =>
    show List.Forall₂ Interval.Has (box.map Interval.clamp) (v.map relu)
    rw [List.forall₂_map_left_iff, List.forall₂_map_right_iff]
    refine h.imp fun i a hi => ?_
    rw [relu_eq_max, max_comm]
    exact hi.clamp

/-- The interval of a neuron over a box that does not cross is sharp. -/
theorem Neuron.interval_sharp (n : Neuron Rat) (rectified : Bool) (hproper : ∀ i ∈ box, i.lower ≤ i.upper)
    (hlen : n.weights.length = box.length) :
    (n.interval (if rectified then box.map Interval.clamp else box)).Sharp box
      fun v => n.preactivation (passed rectified v) := by
  have hinputs : ∀ i ∈ (if rectified then box.map Interval.clamp else box), i.lower ≤ i.upper := by
    cases rectified with
    | false => exact hproper
    | true =>
      refine List.forall_mem_map.2 fun i hi => ?_
      exact (Interval.Nests.refl (hproper i hi)).clamp.proper
  have hpass : ∀ ws, passed rectified (corner ws box) =
      corner ws (if rectified then box.map Interval.clamp else box) := by
    intro ws
    cases rectified with
    | false => rfl
    | true => exact (corner_clamp ws box).symm
  have hneg : (n.weights.map (- ·)).length = box.length := (List.length_map _).trans hlen
  refine Interval.sharp_of_corners hproper (fun v hv => n.interval_has (encloses_passed rectified hv))
    (corner_isEnd hlen) ?_ (corner_isEnd hneg) ?_
  · show dot n.weights _ + n.bias = _
    rw [hpass, dot_corner hinputs]
    rfl
  · show dot n.weights _ + n.bias = _
    rw [hpass, dot_corner_neg hinputs]
    rfl

end Neurons

/-! ### Bounds of arrays -/

section Arrays

variable {α β γ : Type}

theorem commonShape?_self (n : Nat) : commonShape? [n] [n] = some [n] := by
  have hpad : padShape 1 [n] = [n] := rfl
  unfold commonShape?
  show commonDims? (padShape (max 1 1) [n]) (padShape (max 1 1) [n]) = _
  rw [max_self, hpad]
  exact if_pos rfl

theorem spread_ofVector (v : List α) : (Tensor.ofVector v).spread [v.length] = v := by
  show (if v.length = v.length then ((chunks 1 v.length v).map fun c => c).flatten else _) = v
  rw [if_pos rfl, List.map_id']
  exact flatten_chunks (Nat.mul_one _).symm

/-- Vectors of one length are combined entry by entry. -/
theorem combine?_ofVector (f : α → β → γ) {xs : List α} {ys : List β} (h : xs.length = ys.length) :
    (Tensor.ofVector xs).combine? f (.ofVector ys) = some (.ofVector (List.zipWith f xs ys)) := by
  have hlen : (List.zipWith f xs ys).length = ys.length := by
    rw [List.length_zipWith, h, min_self]
  have hshape : commonShape? (Tensor.ofVector xs).shape (Tensor.ofVector ys).shape = some [ys.length] := by
    show commonShape? [xs.length] [ys.length] = _
    rw [h]
    exact commonShape?_self _
  have hx : (Tensor.ofVector xs).spread [ys.length] = xs := by
    rw [← h]
    exact spread_ofVector xs
  unfold Tensor.combine?
  rw [hshape]
  show Tensor.ofEntries? [ys.length] (List.zipWith f (Tensor.spread _ _) (Tensor.spread _ _)) = _
  rw [hx, spread_ofVector]
  unfold Tensor.ofEntries?
  rw [dif_pos (show _ = volume [ys.length] from hlen.trans (Nat.mul_one _).symm)]
  refine congrArg some (Tensor.eq_of_entries ?_ rfl)
  show [ys.length] = [(List.zipWith f xs ys).length]
  rw [hlen]

/-- A vector of numbers is read as it is. -/
theorem traverse_ofVector (v : List α) :
    (Tensor.ofVector (v.map Except.ok)).traverse id = .ok (.ofVector v) := by
  have hread : (v.map Except.ok).mapM id = (Except.ok v : Except Fault (List α)) := by
    refine mapM_of_forall₂ ?_
    rw [List.forall₂_map_left_iff, List.forall₂_same]
    exact fun _ _ => rfl
  unfold Tensor.traverse
  split
  · rename_i es hes
    cases hread.symm.trans hes
    refine congrArg Except.ok (Tensor.eq_of_entries ?_ rfl)
    show [(v.map Except.ok).length] = [v.length]
    rw [List.length_map]
  · rename_i e he
    cases hread.symm.trans he

/-- A bias of numbers is added entry by entry. -/
theorem addBias_ofVector [Scalar α] {sums bias : List α} (h : sums.length = bias.length) :
    addBias (.ofVector sums) (.ofVector (bias.map .ok)) =
      .ok (.ofVector (List.zipWith (· + ·) sums bias)) := by
  have hlen : sums.length = (bias.map (Except.ok : α → Except Fault α)).length :=
    h.trans (List.length_map _).symm
  have hadded : List.zipWith (fun s (b : Except Fault α) => b.map (s + ·)) sums (bias.map .ok) =
      (List.zipWith (· + ·) sums bias).map .ok := by
    rw [List.zipWith_map_right, List.map_zipWith]
    rfl
  unfold addBias
  rw [combine?_ofVector _ hlen, hadded]
  exact traverse_ofVector _

/-- A pair for each row of a matrix and each entry of a vector. -/
def neuronsFrom (w : Tensor α) (bias : List α) : List (Neuron α) := List.zipWith Neuron.mk w.rows bias

/-- A matrix gives a weighted sum for each of its rows. -/
theorem weightedSums_matrix [Scalar α] {w : Tensor α} {m n : Nat} (hw : w.shape = [m, n]) (us ls : List α) :
    weightedSums w (.ofVector us) (.ofVector ls) =
      .ok ⟨.ofVector (w.rows.map fun r => (Interval.weighted r (Interval.ofLists us ls)).upper),
        .ofVector (w.rows.map fun r => (Interval.weighted r (Interval.ofLists us ls)).lower)⟩ := by
  unfold weightedSums
  rw [hw]
  dsimp only
  rw [List.map_map, List.map_map]
  rfl

/-- The bounds of an affine map given by arrays are those of its neurons. -/
theorem propagateArrays_matrix [Scalar α] {w : Tensor α} {m n : Nat} {bias us ls : List α} (rectified : Bool)
    (hw : w.shape = [m, n]) (hb : bias.length = m) (hu : us.length = n) (hl : ls.length = n)
    {is : List (Interval α)} (his : is = (neuronsFrom w bias).map (·.interval
      (if rectified then (Interval.ofLists us ls).map Interval.clamp else Interval.ofLists us ls))) :
    propagateArrays (.ok w) (.ok (.ofVector (bias.map .ok))) (.ok (.ofVector us)) (.ok (.ofVector ls))
        rectified =
      .ok ⟨.ofVector (is.map (·.upper)), .ofVector (is.map (·.lower))⟩ := by
  have hvectors : areVectors n (Tensor.ofVector us) (Tensor.ofVector ls) = true := by
    simp only [areVectors, Tensor.ofVector, hu, hl, decide_true, Bool.and_self]
  have hinput : ∀ v : List α, (if rectified then (Tensor.ofVector v).map relu else .ofVector v) =
      Tensor.ofVector (if rectified then v.map relu else v) := by
    intro v
    cases rectified with
    | false => rfl
    | true =>
      refine Tensor.eq_of_entries ?_ rfl
      show [v.length] = [(v.map relu).length]
      rw [List.length_map]
  have hbox : (if rectified then (Interval.ofLists us ls).map Interval.clamp else Interval.ofLists us ls) =
      Interval.ofLists (if rectified then us.map relu else us) (if rectified then ls.map relu else ls) := by
    cases rectified with
    | false => rfl
    | true =>
      show (List.zipWith _ us ls).map Interval.clamp = List.zipWith _ (us.map relu) (ls.map relu)
      rw [List.map_zipWith, List.zipWith_map]
      rfl
  have hadded : ∀ side : List α → α, addBias (.ofVector (w.rows.map side)) (.ofVector (bias.map .ok)) =
      .ok (.ofVector ((neuronsFrom w bias).map fun p => side p.weights + p.bias)) := by
    intro side
    have hlen : (w.rows.map side).length = bias.length := by
      rw [List.length_map, length_rows_of_shape hw, hb]
    unfold neuronsFrom
    rw [addBias_ofVector hlen, List.zipWith_map_left, List.map_zipWith]
  rw [hbox] at his
  unfold propagateArrays
  simp only [hw, hvectors, hinput, weightedSums_matrix hw, bind, Except.bind, if_true, hadded]
  rw [his, List.map_map, List.map_map]
  rfl

end Arrays

/-! ### The first layer of a build -/

section Builds

variable {solver : Solver Rat} {m : Model Rat} {prev : List VarId}

/-- Optima beyond the known bounds change nothing. -/
theorem improve_eq_self {i : Interval Rat} {o : Optima Rat} (hupper : ∀ u ∈ o.upper, i.upper ≤ u)
    (hlower : ∀ l ∈ o.lower, l ≤ i.lower) : i.improve o.upper o.lower = i := by
  have hu : i.upper ≤ o.upper.getD i.upper := by
    cases ho : o.upper with
    | none => exact le_rfl
    | some u => exact hupper u ho
  have hl : o.lower.getD i.lower ≤ i.lower := by
    cases ho : o.lower with
    | none => exact le_rfl
    | some l => exact hlower l ho
  rw [improve_eq, min_eq_left hu, max_eq_left hl]

/-- No optimum is better than an extreme, and some may be missing. -/
theorem improve_extremes {n : Neuron Rat} {o : Optima Rat} {i : Interval Rat} (hs : solver.Sound)
    (hg : solver.Grounded) (hi : (m.readings prev).Nonempty → i.Spans (n.preactivation '' m.readings prev))
    (h : o.From solver false m prev n) : i.improve o.upper o.lower = i := by
  rcases h.exists_feasible hg with rfl | ⟨x, hx⟩
  · exact improve_eq_self nofun nofun
  · obtain ⟨⟨hupper, -⟩, hlower, -⟩ := hi ⟨_, x, hx, rfl⟩
    obtain ⟨_, ⟨y, hy, rfl⟩, hyu⟩ := hupper
    obtain ⟨_, ⟨z, hz, rfl⟩, hzl⟩ := hlower
    refine improve_eq_self ?_ ?_
    · rw [← hyu]
      exact (h.bounds hs hy).1
    · rw [← hzl]
      exact (h.bounds hs hz).2

theorem improveAll_extremes {ns : List (Neuron Rat)} {is : List (Interval Rat)} {os : List (Optima Rat)}
    (hs : solver.Sound) (hg : solver.Grounded)
    (his : List.Forall₂ (fun n i => (m.readings prev).Nonempty →
      i.Spans (n.preactivation '' m.readings prev)) ns is)
    (hos : List.Forall₂ (fun n o => o.From solver false m prev n) ns os) : improveAll is os = is := by
  induction his generalizing os with
  | nil => rfl
  | @cons n i ns is hi _ ih =>
    cases hos with
    | @cons _ o _ os ho hos =>
      show i.improve o.upper o.lower :: improveAll is os = i :: is
      rw [improve_extremes hs hg hi ho, ih hos]

variable {r : Request Rat} {s : Assembled Rat} {stem : Stem Rat} {f : Formulation Rat}
  {w w₁ w₂ w' v : Workspace Rat}

/-- Where a model that may be relaxed is feasible at all, the new inputs read the whole box. -/
theorem Request.Assembles.readings_boxed (h : r.Assembles solver s stem w w₁ w₂ w') (hr : r.WellFormed)
    (hm : w.model.WellFormed) {relax : Bool} {x₀ : Assignment Rat}
    (hx₀ : (w₁.model.loosened relax).Feasible x₀) :
    (w₁.model.loosened relax).readings s.body.inputs = {v | List.Forall₂ Interval.Has r.box v} := by
  have hin : s.body.inputs.length = r.box.length := by
    rw [h.inputs, List.length_range', hr.box_length]
  apply Set.Subset.antisymm
  · rintro _ ⟨x, hx, rfl⟩
    exact ((h.loosened_boxed hr).1 hx).2
  · intro u hu
    obtain ⟨x, rfl, hoff⟩ := exists_assignment h.adds_inputs.vars_nodup
      (hu.length_eq.symm.trans hin.symm) x₀
    -- what the model held before does not speak of the inputs
    have hold : (w.model.loosened relax).Feasible x := by
      refine ((h.loosened_boxed hr).1 hx₀).1.congr (hm.loosened relax) fun id hid => ?_
      rw [Model.loosened_nextVar] at hid
      exact hoff id fun hmem => absurd hid (not_lt.2 (h.adds_inputs.vars_new hmem).1)
    exact ⟨x, (h.loosened_boxed hr).2 ⟨hold, hu⟩, rfl⟩

/-- Optimisation over the inputs finds the bounds that the box gives. -/
theorem layerBounds_first {k : Nat} {l : Layer Rat} {is : List (Interval Rat)} (hs : solver.Sound)
    (hg : solver.Grounded) (h : r.Assembles solver s stem w w₁ w₂ w') (hr : r.WellFormed)
    (hm : w.model.WellFormed) (hgiven : r.given = none) (hproper : ∀ i ∈ r.box, i.lower ≤ i.upper)
    (hl : l.inputs = r.network.inputs)
    (hb : layerBounds solver r k s.body.inputs false r.box l w₁ = .ok is v) :
    is = l.intervals false r.box := by
  obtain ⟨-, ⟨table, ht, -⟩ | ⟨-, rfl | ⟨os, rfl, hos⟩⟩⟩ := layerBounds_eq_ok hb
  · rw [hgiven] at ht
    cases ht
  · rfl
  · refine improveAll_extremes hs hg ?_ (hos.imp fun n o ho => ho.loosened)
    unfold Layer.intervals
    rw [List.forall₂_map_right_iff, List.forall₂_same]
    rintro n hn ⟨_, x₀, hx₀, rfl⟩
    rw [h.readings_boxed hr hm hx₀]
    have hlen : n.weights.length = r.box.length := by
      rw [l.conform n hn, hl, hr.box_length]
    exact (n.interval_sharp false hproper hlen).spans

/-- The first layer of a network. -/
def Network.first (n : Network Rat) : Layer Rat := n.hidden.head?.getD n.output

/-- The bounds of the first layer without optimisation: the given ones, or those that the box gives. -/
def Request.firstBounds (r : Request Rat) : List (Interval Rat) :=
  match r.given with
  | some table => (table[0]?).getD []
  | none => r.network.first.intervals false r.box

/-- The first layer of an assembly is bounded over the inputs. -/
theorem Request.Assembles.first (h : r.Assembles solver s stem w w₁ w₂ w') :
    ∃ is v, layerBounds solver r 1 s.body.inputs false r.box r.network.first w₁ = .ok is v ∧
      (s.table ++ [s.bounds]).head? = some is := by
  obtain ⟨v, hbounds⟩ := h.bounds
  have hhidden := h.hidden
  rw [h.table]
  unfold Network.first
  cases hls : r.network.hidden with
  | nil =>
    rw [hls] at hbounds hhidden
    obtain ⟨rfl, rfl⟩ := Action.pure_eq_ok.1 hhidden
    exact ⟨_, v, hbounds, rfl⟩
  | cons l ls =>
    rw [hls] at hhidden
    obtain ⟨is, us, rest, v₁, v₂, his, -, -, rfl⟩ := buildHidden_cons hhidden
    exact ⟨is, v₁, his, rfl⟩

/-- The first layer of a build has the given bounds, or those that it gets over the inputs. -/
theorem Request.build_first (hplan : ∀ range, r.plan ≠ .output range) (h : r.build solver w = .ok f w')
    (hfound : ∀ s stem w₁ w₂ w₃ is v, r.given = none → r.Assembles solver s stem w w₁ w₂ w₃ →
      layerBounds solver r 1 s.body.inputs false r.box r.network.first w₁ = .ok is v →
        is = r.network.first.intervals false r.box) : f.table.head? = some r.firstBounds := by
  obtain ⟨s, stem, w₁, w₂, w₃, hass, htable⟩ := Request.build_table hplan h
  obtain ⟨is, v, hbounds, hhead⟩ := hass.first
  rw [htable, hhead]
  unfold Request.firstBounds
  cases hgiven : r.given with
  | some table => rw [layerBounds_of_given hgiven hbounds]
  | none => rw [hfound s stem w₁ w₂ w₃ is v hgiven hass hbounds]

/-- A build without optimisation has the bounds of the first layer that come without it. -/
theorem Request.build_fast_first (hplan : r.plan = .fast) (h : r.build solver w = .ok f w') :
    f.table.head? = some r.firstBounds := by
  refine Request.build_first (fun _ hrange => nomatch hplan.symm.trans hrange) h ?_
  intro s stem w₁ w₂ w₃ is v hgiven _ hbounds
  exact layerBounds_intervals hgiven (fun hstandard => nomatch hplan.symm.trans hstandard) hbounds

/-- So has a build with optimisation, whatever the model holds and whichever solves fail. -/
theorem Request.build_standard_first (hs : solver.Sound) (hg : solver.Grounded) (hplan : r.plan = .standard)
    (hr : r.given = none → r.WellFormed) (hm : w.model.WellFormed)
    (hproper : ∀ i ∈ r.box, i.lower ≤ i.upper) (h : r.build solver w = .ok f w') :
    f.table.head? = some r.firstBounds := by
  refine Request.build_first (fun _ hrange => nomatch hplan.symm.trans hrange) h ?_
  intro s stem w₁ w₂ w₃ is v hgiven hass hbounds
  exact layerBounds_first hs hg hass (hr hgiven) hm hgiven hproper rfl hbounds

end Builds

section Formulated

variable {a b : BuildArguments Rat} {r r' : Request Rat}

/-- Arguments that ask for no table give none. -/
theorem absent_of_table {ns : List Nat} {upper lower : TableArgument Rat}
    (h : BuildArguments.table ns upper lower = .ok none) : upper = .absent ∧ lower = .absent := by
  unfold BuildArguments.table at h
  split at h
  · exact ⟨rfl, rfl⟩
  · cases h
  · cases h
  · obtain ⟨us, -, h⟩ := Except.bind_eq_ok.1 h
    obtain ⟨ls, -, h⟩ := Except.bind_eq_ok.1 h
    obtain ⟨uts, -, h⟩ := Except.bind_eq_ok.1 h
    obtain ⟨lts, -, h⟩ := Except.bind_eq_ok.1 h
    cases h

theorem BuildArguments.Asks.wellFormed_of_none (h : a.Asks r) (hgiven : r.given = none) : r.WellFormed := by
  have htable := h.given
  rw [hgiven] at htable
  obtain ⟨hupper, hlower⟩ := absent_of_table htable
  exact (h.of_absent hupper hlower).1

theorem BuildArguments.Asks.box_proper (h : a.Asks r) : ∀ i ∈ r.box, i.lower ≤ i.upper :=
  fun i hi => (List.forall₂_same.1 h.box_nests i hi).proper

/-- The first layer is bounded alike without optimisation if the network, the box and the given bounds are the
same. -/
theorem BuildArguments.SameBox.firstBounds (hab : a.SameBox b) (hupper : a.boundsUpper = b.boundsUpper)
    (hlower : a.boundsLower = b.boundsLower) (ha : a.Asks r) (hb : b.Asks r') :
    r'.firstBounds = r.firstBounds := by
  obtain ⟨hnetwork, -⟩ := hab.requests ha hb
  obtain ⟨us, ls, hus, hls, hbox, -⟩ := ha.box.bounds
  obtain ⟨us', ls', hus', hls', hbox', -⟩ := hb.box.bounds
  rw [hnetwork, ← hab.upper] at hus'
  rw [hnetwork, ← hab.lower] at hls'
  have hgiven := hb.given
  rw [hnetwork, ← hupper, ← hlower, ha.given] at hgiven
  unfold Request.firstBounds
  rw [hnetwork, hbox, hbox', hus.unique hus', hls.unique hls', Except.ok.inj hgiven]

end Formulated

/-- The bounds of one layer are exact. From bounds of vectors of which none is above the other, the bounds of
an affine map are, for every row of the matrix, from the smallest to the largest value on the vectors in
between, with the rectifier applied to them first or not, and corners take both. So the first layer has the
same bounds with optimisation and without it, for one network, one box and the same given bounds if there
are any, whatever else the models and the arguments are and whichever solves fail. -/
theorem one_layer_exact :
    (∀ (w : Tensor Rat) (m n : Nat) (bias us ls : List Rat) (rectified : Bool), w.shape = [m, n] →
      bias.length = m → us.length = n → List.Forall₂ (· ≤ ·) ls us →
      ∃ is : List (Interval Rat), propagateArrays (.ok w) (.ok (.ofVector (bias.map .ok)))
          (.ok (.ofVector us)) (.ok (.ofVector ls)) rectified =
            .ok ⟨.ofVector (is.map (·.upper)), .ofVector (is.map (·.lower))⟩ ∧
        is.length = m ∧ List.Forall₂ (fun p i => i.Sharp (Interval.ofLists us ls) fun v =>
          p.preactivation (passed rectified v)) (neuronsFrom w bias) is) ∧
    ∀ (solver solver' : Solver Rat) (settings settings' : Option Settings) (a b : BuildArguments Rat)
      (w w' v v' : Workspace Rat) (f g : Formulation Rat), solver.Sound → solver.Grounded →
      w.model.WellFormed → a.SameBox b → a.boundsUpper = b.boundsUpper → a.boundsLower = b.boundsLower →
      Mode.ofValue a.mode = .ok .standard → Mode.ofValue b.mode = .ok .fast →
      formulateNetwork solver settings a w = .ok f w' → formulateNetwork solver' settings' b v = .ok g v' →
      ∃ is, f.table.head? = some is ∧ g.table.head? = some is := by
  refine ⟨?_, ?_⟩
  · intro w m n bias us ls rectified hw hb hu hle
    have hl : ls.length = n := hle.length_eq.trans hu
    have hproper : ∀ i ∈ Interval.ofLists us ls, i.lower ≤ i.upper := by
      have hlower : List.Forall₂ Interval.Has (Interval.ofLists us ls) ls :=
        (forall₂_has_iff (hu.trans hl.symm)).2 ⟨List.forall₂_same.2 fun _ _ => le_rfl, hle⟩
      intro i hi
      obtain ⟨x, hx⟩ : ∃ x, i.Has x := exists_of_forall₂ hlower.flip hi
      exact hx.proper
    have hwidths : ∀ p ∈ neuronsFrom w bias, p.weights.length = (Interval.ofLists us ls).length := by
      have hlast : w.shape.getLast? = some n := by
        rw [hw]
        rfl
      rw [length_ofLists hu hl]
      exact Layer.conform_zipWith (Tensor.length_of_mem_rows hlast) bias
    refine ⟨_, propagateArrays_matrix rectified hw hb hu hl rfl, ?_, ?_⟩
    · unfold neuronsFrom
      rw [List.length_map, List.length_zipWith, length_rows_of_shape hw, hb, min_self]
    · rw [List.forall₂_map_right_iff, List.forall₂_same]
      exact fun p hp => p.interval_sharp rectified hproper (hwidths p hp)
  · intro solver solver' settings settings' a b w w' v v' f g hs hg hm hab hupper hlower hmode hmode' hf hf'
    obtain ⟨r, w₀, hreq, hw₀, hf⟩ := formulateNetwork_eq_ok hf
    obtain ⟨r', v₀, hreq', -, hf'⟩ := formulateNetwork_eq_ok hf'
    have ha := request_eq_ok hreq
    have hb := request_eq_ok hreq'
    have hm₀ : w₀.model.WellFormed := by
      rw [hw₀]
      exact Model.wellFormed_parameters hm _
    have hsame : r'.firstBounds = r.firstBounds := by
      refine BuildArguments.SameBox.firstBounds (a := { a with settings := settings.getD .default })
        (b := { b with settings := settings'.getD .default }) ?_ hupper hlower ha hb
      exact ⟨hab.network, hab.upper, hab.lower⟩
    refine ⟨r.firstBounds, ?_, ?_⟩
    · exact Request.build_standard_first hs hg (ha.plan_standard hmode) ha.wellFormed_of_none hm₀
        ha.box_proper hf
    · rw [← hsame]
      exact Request.build_fast_first (hb.plan_fast hmode') hf'

/-- With the rectifier, one neuron of which the weights have both signs, between zero and two and between zero
and one. Where every second solve fails, the first layer of the absolute value is bounded as without
optimisation. -/
theorem one_layer_exact_absolute :
    (∃ i : Interval Rat, propagateArrays (.ok ⟨[1, 2], [1, -2], rfl⟩) (.ok (.ofVector ([1].map .ok)))
          (.ok (.ofVector [2, 1])) (.ok (.ofVector [-1, -1])) true =
            .ok ⟨.ofVector [i.upper], .ofVector [i.lower]⟩ ∧
        i.Sharp [⟨2, -1⟩, ⟨1, -1⟩] fun v => Neuron.preactivation ⟨[1, -2], 1⟩ (passed true v)) ∧
      ∃ f g w' v', formulateNetwork (.unless (fun k _ => k % 2 = 1) .ideal) none (.absolute "standard")
          (.ofModel (.empty "model")) = .ok f w' ∧
        formulateNetwork .ideal none (.absolute "fast") (.ofModel (.empty "model")) = .ok g v' ∧
        ∃ is, f.table.head? = some is ∧ g.table.head? = some is := by
  constructor
  · obtain ⟨is, hpropagate, hlen, hsharp⟩ := one_layer_exact.1 ⟨[1, 2], [1, -2], rfl⟩ 1 2 [1] [2, 1] [-1, -1]
      true rfl rfl rfl (.cons (by norm_num) (.cons (by norm_num) .nil))
    obtain ⟨i, rfl⟩ := List.length_eq_one_iff.1 hlen
    exact ⟨i, hpropagate, (List.forall₂_cons.1 hsharp).1⟩
  · have hstandard : Mode.ofValue (.text "standard") = .ok .standard := by decide +kernel
    have hfast : Mode.ofValue (.text "fast") = .ok .fast := by decide +kernel
    have hbuild : Action.succeeds (formulateNetwork .ideal none (.absolute "fast"))
        (.ofModel (.empty "model")) = true := by decide +kernel
    obtain ⟨g, v', hg⟩ := Action.exists_of_succeeds hbuild
    have hsolvable : Request.absolute.Solvable (.unless (fun k _ => k % 2 = 1) .ideal) :=
      ⟨exact_ideal.total.unless, by decide, nofun⟩
    have hempty : (Workspace.ofModel (Model.empty "model") : Workspace Rat).model.WellFormed :=
      Model.wellFormed_empty "model"
    obtain ⟨f, w', hf⟩ : ∃ f w', formulateNetwork (.unless (fun k _ => k % 2 = 1) .ideal) none
        (.absolute "standard") (.ofModel (.empty "model")) = .ok f w' :=
      formulateNetwork_succeeds rfl (BuildArguments.faithful_absolute "standard") hsolvable namesFit_absolute
        hempty
    have hsame : (BuildArguments.absolute "standard").SameBox (.absolute "fast") := ⟨rfl, rfl, rfl⟩
    have hfirst := one_layer_exact.2 _ .ideal none none (.absolute "standard") (.absolute "fast") _ w' _ v' f g
      exact_ideal.sound.unless exact_ideal.grounded.unless hempty hsame rfl rfl hstandard hfast hf hg
    exact ⟨f, g, w', v', hf, hg, hfirst⟩

end ReluMilp
