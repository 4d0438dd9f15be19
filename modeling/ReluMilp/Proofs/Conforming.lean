import ReluMilp.Proofs.Evaluating
import ReluMilp.Proofs.Grammar
import ReluMilp.Proofs.Requests

/-!
# Networks that conform

The checks of layers and networks refuse exactly what does not fit together, and what they let pass is
evaluated without a fault.

* `exists_ofTensors`, `Layer.ofReadings_eq_ok` — tensors that are a layer;
* `chained_iff`, `exists_ofLayers` — layers that are a network;
* `LayersOf` — the layers of weights and biases; `ofReadings_eq_ofLayers`, `LayersOf.of_network` — a network of
  weights and biases is that of their layers;
* `Conform` — weights and biases that fit to widths; `exists_ofReadings` — exactly these have a network;
* `Network.forward_error` — what cannot be evaluated;
* `networks_conform` — all of it.
-/

namespace ReluMilp

variable {α : Type}

/-! ### Layers -/

section Layers

variable {w b : Tensor α} {a : Activation} {l : Layer α}

/-- A matrix of weights with as many rows as there are biases is a layer, and nothing else is. -/
theorem exists_ofTensors : (∃ l, Layer.ofTensors w b a = .ok l) ↔ ∃ n, w.shape = [b.entries.length, n] := by
  constructor
  · rintro ⟨l, hl⟩
    exact ⟨l.inputs, (ofTensors_eq_ok.1 hl).1⟩
  · rintro ⟨n, hn⟩
    have hlast : w.shape.getLast? = some n := by
      rw [hn]
      rfl
    exact ⟨⟨n, _, a, Layer.conform_zipWith (Tensor.length_of_mem_rows hlast) b.entries⟩,
      ofTensors_eq_ok.2 ⟨hn, rfl, rfl⟩⟩

theorem outputs_ofTensors (h : Layer.ofTensors w b a = .ok l) : l.outputs = b.entries.length := by
  obtain ⟨hshape, hneurons, -⟩ := ofTensors_eq_ok.1 h
  rw [Layer.outputs, hneurons, List.length_zipWith, length_rows_of_shape hshape, min_self]

/-- The layer of two readings is that of two tensors with an activation that has a name. -/
theorem Layer.ofReadings_eq_ok {w b : Reading α} {activation : Value} :
    Layer.ofReadings w b activation = .ok l ↔ ∃ wt bt a, w = .ok wt ∧ b = .ok bt ∧
      Activation.ofName activation = .ok a ∧ Layer.ofTensors wt bt a = .ok l := by
  have hwith : ∀ {wt bt : Tensor α} {a : Activation} {l' : Layer α}, Layer.ofTensors wt bt .identity = .ok l' →
      Layer.ofTensors wt bt a = .ok (l'.withActivation a) := by
    intro wt bt a l' hl'
    obtain ⟨hshape, hneurons, -⟩ := ofTensors_eq_ok.1 hl'
    exact ofTensors_eq_ok.2 ⟨hshape, hneurons, rfl⟩
  unfold Layer.ofReadings
  constructor
  · intro h
    obtain ⟨wt, hw, h⟩ := Except.bind_eq_ok.1 h
    obtain ⟨bt, hb, h⟩ := Except.bind_eq_ok.1 h
    obtain ⟨l', hl', h⟩ := Except.bind_eq_ok.1 h
    obtain ⟨a, ha, h⟩ := Except.bind_eq_ok.1 h
    cases h
    exact ⟨wt, bt, a, hw, hb, ha, hwith hl'⟩
  · rintro ⟨wt, bt, a, rfl, rfl, ha, hl⟩
    obtain ⟨n, hn⟩ := exists_ofTensors.1 ⟨l, hl⟩
    obtain ⟨l', hl'⟩ := (exists_ofTensors (a := .identity)).2 ⟨n, hn⟩
    refine Except.bind_eq_ok.2 ⟨wt, rfl, Except.bind_eq_ok.2 ⟨bt, rfl, Except.bind_eq_ok.2 ⟨l', hl', ?_⟩⟩⟩
    exact Except.bind_eq_ok.2 ⟨a, ha, (hwith hl').symm.trans hl⟩

end Layers

/-! ### Networks of layers -/

/-- Every layer reads as many values as the one before gives, place by place. -/
theorem chained_iff {ls : List (Layer α)} : Chained ls ↔
    ∀ (k : Nat) l l', ls[k]? = some l → ls[k + 1]? = some l' → l'.inputs = l.outputs := by
  fun_induction Chained ls with
  | case1 => exact ⟨fun _ k l l' hl _ => (nomatch hl), fun _ => trivial⟩
  | case2 l => exact ⟨fun _ k l l' _ hl' => (nomatch hl'), fun _ => trivial⟩
  | case3 a b rest ih =>
    rw [ih]
    constructor
    · rintro ⟨hab, hrest⟩ k l l' hl hl'
      cases k with
      | zero =>
        cases hl
        cases hl'
        exact hab
      | succ k => exact hrest k l l' hl hl'
    · intro h
      exact ⟨h 0 a b rfl rfl, fun k l l' hl hl' => h (k + 1) l l' hl hl'⟩

/-- Some chained layers are a network: the last one without activation, the others with the rectifier. -/
theorem exists_ofLayers {ls : List (Layer α)} {name : Value} : (∃ n, Network.ofLayers ls name = .ok n) ↔
    ls ≠ [] ∧ (∀ l ∈ ls.dropLast, l.activation = .relu) ∧ (∀ o ∈ ls.getLast?, o.activation = .identity) ∧
      Chained ls := by
  constructor
  · rintro ⟨n, hn⟩
    obtain ⟨rfl, -⟩ := ofLayers_eq_ok.1 hn
    refine ⟨n.layers_ne_nil, ?_, ?_, n.chained⟩
    · rw [Network.layers, List.dropLast_concat]
      exact n.hidden_relu
    · rw [Network.layers, List.getLast?_concat]
      rintro _ ⟨⟩
      exact n.output_identity
  · rintro ⟨hne, hrelu, hidentity, hchained⟩
    have hlast := List.getLast?_eq_some_getLast hne
    have hsplit := List.dropLast_concat_getLast hne
    refine ⟨⟨name, ls.dropLast, ls.getLast hne, hrelu, hidentity _ hlast, ?_⟩, ofLayers_eq_ok.2 ⟨hsplit, rfl⟩⟩
    rw [hsplit]
    exact hchained

/-! ### Networks of weights and biases -/

/-- The layers of weights and biases, pair by pair; the last one has no activation, all others have the
rectifier. -/
structure LayersOf (ws bs : List (Reading α)) (ls : List (Layer α)) : Prop where
  biases : bs.length = ws.length
  layers : ls.length = ws.length
  made : ∀ (k : Nat) l, ls[k]? = some l → ∃ w b, ws[k]? = some (.ok w) ∧ bs[k]? = some (.ok b) ∧
    Layer.ofTensors w b (if k + 1 = ws.length then .identity else .relu) = .ok l

/-- Weights and biases that fit to widths: a matrix from every width to the next one, with as many biases. -/
def Conform (ws bs : List (Reading α)) (widths : Nat → Nat) : Prop :=
  ∀ k < ws.length, ∃ w b, ws[k]? = some (.ok w) ∧ bs[k]? = some (.ok b) ∧
    w.shape = [widths (k + 1), widths k] ∧ b.entries.length = widths (k + 1)

section Arrays

variable {ws bs : List (Reading α)} {ls : List (Layer α)} {name : Value} {n : Network α}

theorem forall₂_zipIdx {β γ : Type} {R : β × Nat → γ → Prop} {xs : List β} {ys : List γ} :
    List.Forall₂ R xs.zipIdx ys ↔
      ys.length = xs.length ∧ ∀ (k : Nat) x y, xs[k]? = some x → ys[k]? = some y → R (x, k) y := by
  refine List.forall₂_iff_get.trans ⟨?_, ?_⟩
  · rintro ⟨hlen, h⟩
    rw [List.length_zipIdx] at hlen
    refine ⟨hlen.symm, fun k x y hx hy => ?_⟩
    obtain ⟨hk, rfl⟩ := List.getElem?_eq_some_iff.1 hx
    obtain ⟨hk', rfl⟩ := List.getElem?_eq_some_iff.1 hy
    have hat := h k (by rwa [List.length_zipIdx]) hk'
    simpa using hat
  · rintro ⟨hlen, h⟩
    refine ⟨List.length_zipIdx.trans hlen.symm, fun k hk hk' => ?_⟩
    have hat := h k _ _ (List.getElem?_eq_getElem (hlen ▸ hk')) (List.getElem?_eq_getElem hk')
    simpa using hat

/-- The layer of the weights and the biases at position `k` of `count`. -/
def Layer.ofPair (count : Nat) (w b : Reading α) (k : Nat) : Except Fault (Layer α) := do
  let w ← w
  let b ← b
  Layer.ofTensors w b (Network.activationAt count k)

theorem ofReadings_eq (hlen : ws.length = bs.length) (name : Value) : Network.ofReadings ws bs name =
    ((ws.zip bs).zipIdx.mapM fun p => Layer.ofPair ws.length p.1.1 p.1.2 p.2) >>= (Network.ofLayers · name) :=
  if_neg (not_not.2 hlen)

/-- The layers of weights and biases are what is made of them one after the other. -/
theorem layersOf_iff (hlen : ws.length = bs.length) : LayersOf ws bs ls ↔
    (ws.zip bs).zipIdx.mapM (fun p => Layer.ofPair ws.length p.1.1 p.1.2 p.2) = .ok ls := by
  have hzip : (ws.zip bs).length = ws.length := by rw [List.length_zip, ← hlen, min_self]
  constructor
  · intro h
    refine mapM_of_forall₂ (forall₂_zipIdx.2 ⟨h.layers.trans hzip.symm, fun k p l hp hl => ?_⟩)
    obtain ⟨w, b, hw, hb, hmade⟩ := h.made k l hl
    obtain ⟨hw', hb'⟩ := List.getElem?_zip_eq_some.1 hp
    obtain ⟨pw, pb⟩ := p
    cases hw.symm.trans hw'
    cases hb.symm.trans hb'
    exact hmade
  · intro h
    obtain ⟨hls, hat⟩ := forall₂_zipIdx.1 (mapM_eq_ok h)
    refine ⟨hlen.symm, hls.trans hzip, fun k l hl => ?_⟩
    have hk : k < (ws.zip bs).length := hls ▸ (List.getElem?_eq_some_iff.1 hl).1
    have hp := List.getElem?_eq_getElem hk
    obtain ⟨hw, hb⟩ := List.getElem?_zip_eq_some.1 hp
    obtain ⟨w, hw', hmade⟩ := Except.bind_eq_ok.1 (hat k _ l hp hl)
    obtain ⟨b, hb', hmade⟩ := Except.bind_eq_ok.1 hmade
    exact ⟨w, b, hw.trans (congrArg some hw'), hb.trans (congrArg some hb'), hmade⟩

/-- Weights and biases of which layers can be made give what these layers give. -/
theorem ofReadings_eq_ofLayers (h : LayersOf ws bs ls) :
    Network.ofReadings ws bs name = Network.ofLayers ls name := by
  rw [ofReadings_eq h.biases.symm, (layersOf_iff h.biases.symm).1 h]
  rfl

/-- A network of weights and biases has their layers. -/
theorem LayersOf.of_network (h : Network.ofReadings ws bs name = .ok n) : LayersOf ws bs n.layers := by
  by_cases hlen : ws.length = bs.length
  · rw [ofReadings_eq hlen] at h
    obtain ⟨ls, hls, hn⟩ := Except.bind_eq_ok.1 h
    obtain ⟨rfl, -⟩ := ofLayers_eq_ok.1 hn
    exact (layersOf_iff hlen).2 hls
  · unfold Network.ofReadings at h
    rw [if_pos hlen] at h
    cases h

/-- The widths of the layers of a network, and in the end that of its output. -/
def Network.widths (n : Network α) (k : Nat) : Nat := (n.layers[k]?.map (·.inputs)).getD n.outputs

theorem Network.widths_eq (n : Network α) {k : Nat} {l : Layer α} (h : n.layers[k]? = some l) :
    n.widths k = l.inputs ∧ n.widths (k + 1) = l.outputs := by
  unfold Network.widths
  rw [h]
  refine ⟨rfl, ?_⟩
  cases hnext : n.layers[k + 1]? with
  | some l' => exact chained_iff.1 n.chained k l l' h hnext
  | none =>
    -- there is no layer behind the last one
    have hk : k + 1 = n.layers.length :=
      le_antisymm (List.getElem?_eq_some_iff.1 h).1 (List.getElem?_eq_none_iff.1 hnext)
    have hlast : n.layers[k]? = some n.output := by
      rw [show k = n.layers.length - 1 by omega, ← List.getLast?_eq_getElem?, Network.layers,
        List.getLast?_concat]
    cases h.symm.trans hlast
    rfl

/-- Weights and biases that fit to widths have layers with these widths. -/
theorem Conform.exists_layers {widths : Nat → Nat} (h : Conform ws bs widths) (hlen : ws.length = bs.length) :
    ∃ ls, LayersOf ws bs ls ∧
      ∀ (k : Nat) l, ls[k]? = some l → l.inputs = widths k ∧ l.outputs = widths (k + 1) := by
  have hmade : ∀ k : Fin ws.length, ∃ l : Layer α, ∃ w b, ws[k.val]? = some (.ok w) ∧ bs[k.val]? = some (.ok b) ∧
      Layer.ofTensors w b (if k.val + 1 = ws.length then .identity else .relu) = .ok l ∧
      l.inputs = widths k ∧ l.outputs = widths (k + 1) := by
    intro k
    obtain ⟨w, b, hw, hb, hshape, hbias⟩ := h k k.isLt
    rw [← hbias] at hshape
    obtain ⟨l, hl⟩ := exists_ofTensors.2 ⟨_, hshape⟩
    have hinputs := (ofTensors_eq_ok.1 hl).1
    rw [hshape] at hinputs
    exact ⟨l, w, b, hw, hb, hl, (List.cons.inj (List.cons.inj hinputs).2).1.symm,
      (outputs_ofTensors hl).trans hbias⟩
  choose layer hlayer using hmade
  have hget : ∀ (k : Nat) l, (List.ofFn layer)[k]? = some l → ∃ hk : k < ws.length, layer ⟨k, hk⟩ = l := by
    intro k l hl
    rw [List.getElem?_ofFn] at hl
    split at hl
    · rename_i hk
      exact ⟨hk, Option.some.inj hl⟩
    · cases hl
  refine ⟨List.ofFn layer, ⟨hlen.symm, List.length_ofFn, fun k l hl => ?_⟩, fun k l hl => ?_⟩
  · obtain ⟨hk, rfl⟩ := hget k l hl
    obtain ⟨w, b, hw, hb, hl', -⟩ := hlayer ⟨k, hk⟩
    exact ⟨w, b, hw, hb, hl'⟩
  · obtain ⟨hk, rfl⟩ := hget k l hl
    obtain ⟨w, b, -, -, -, hwidths⟩ := hlayer ⟨k, hk⟩
    exact hwidths

/-- Weights and biases have a network if there are some, as many of both, and they fit to widths. -/
theorem exists_ofReadings : (∃ n, Network.ofReadings ws bs name = .ok n) ↔
    ws.length = bs.length ∧ 0 < ws.length ∧ ∃ widths, Conform ws bs widths := by
  constructor
  · rintro ⟨n, hn⟩
    have h := LayersOf.of_network hn
    refine ⟨h.biases.symm, ?_, n.widths, fun k hk => ?_⟩
    · rw [← h.layers]
      exact List.length_pos_iff.2 n.layers_ne_nil
    · have hl := List.getElem?_eq_getElem (h.layers ▸ hk)
      obtain ⟨w, b, hw, hb, hmade⟩ := h.made k _ hl
      obtain ⟨hin, hout⟩ := n.widths_eq hl
      have hbias := outputs_ofTensors hmade
      refine ⟨w, b, hw, hb, ?_, hbias.symm.trans hout.symm⟩
      rw [hin, hout, hbias]
      exact (ofTensors_eq_ok.1 hmade).1
  · rintro ⟨hlen, hpos, widths, h⟩
    obtain ⟨ls, hls, hwidths⟩ := h.exists_layers hlen
    rw [ofReadings_eq_ofLayers hls, exists_ofLayers]
    have hact : ∀ (k : Nat) l, ls[k]? = some l →
        l.activation = if k + 1 = ls.length then .identity else .relu := by
      intro k l hl
      obtain ⟨w, b, -, -, hmade⟩ := hls.made k l hl
      rw [hls.layers]
      exact (ofTensors_eq_ok.1 hmade).2.2
    refine ⟨List.length_pos_iff.1 (hls.layers ▸ hpos), fun l hl => ?_, fun o ho => ?_, chained_iff.2 ?_⟩
    · obtain ⟨k, hk, rfl⟩ := List.mem_iff_getElem.1 hl
      rw [List.length_dropLast] at hk
      rw [List.getElem_dropLast, hact k _ (List.getElem?_eq_getElem (by omega)), if_neg (by omega)]
    · rw [List.getLast?_eq_getElem?] at ho
      have hk := (List.getElem?_eq_some_iff.1 ho).1
      rw [hact _ o ho, if_pos (by omega)]
    · intro k l l' hl hl'
      rw [(hwidths (k + 1) l' hl').1, (hwidths k l hl).2]

end Arrays

/-! ### Evaluation -/

/-- Only rows of its width are taken by a network. -/
theorem Network.forward_error [Scalar α] {n : Network α} {t : Tensor α} (h : t.shape.getLast? ≠ some n.inputs) :
    n.forward t = .error .wrongValue := by
  obtain ⟨l, ls, hls⟩ := List.exists_cons_of_ne_nil n.layers_ne_nil
  rw [n.inputs_eq hls] at h
  unfold Network.forward
  rw [hls, List.foldlM_cons, Layer.forward, dif_neg h]
  rfl

/-- Networks are made of what conforms, and of nothing else. A matrix of weights with as many rows as there are
biases is a layer; some layers are a network if the last one has no activation, all others have the rectifier
and every one reads what the one before gives; weights and biases are the network of their layers if they
fit to widths. A network takes every array with rows of its inputs to one with rows of its outputs, with the
same dimensions before, and refuses every other array. -/
theorem networks_conform {α : Type} [Scalar α] :
    (∀ (w b : Reading α) (activation : Value), (∃ l, Layer.ofReadings w b activation = .ok l) ↔
      ∃ wt bt a n, w = .ok wt ∧ b = .ok bt ∧ Activation.ofName activation = .ok a ∧
        wt.shape = [bt.entries.length, n]) ∧
    (∀ (ls : List (Layer α)) (name : Value), (∃ n, Network.ofLayers ls name = .ok n) ↔
      ls ≠ [] ∧ (∀ l ∈ ls.dropLast, l.activation = .relu) ∧ (∀ o ∈ ls.getLast?, o.activation = .identity) ∧
        ∀ (k : Nat) l l', ls[k]? = some l → ls[k + 1]? = some l' → l'.inputs = l.outputs) ∧
    (∀ (ws bs : List (Reading α)) (name : Value), (∃ n, Network.ofReadings ws bs name = .ok n) ↔
      ws.length = bs.length ∧ 0 < ws.length ∧ ∃ widths, Conform ws bs widths) ∧
    (∀ (ws bs : List (Reading α)) (name : Value) (n : Network α), Network.ofReadings ws bs name = .ok n →
      LayersOf ws bs n.layers ∧ Network.ofLayers n.layers name = .ok n) ∧
    ∀ (n : Network α) (t : Tensor α),
      (∀ lead, t.shape = lead ++ [n.inputs] → ∃ u, n.forward t = .ok u ∧ u.shape = lead ++ [n.outputs]) ∧
      (t.shape.getLast? ≠ some n.inputs → ∃ e, n.forward t = .error e) := by
  refine ⟨fun w b activation => ?_, fun ls name => ?_, fun _ _ _ => exists_ofReadings, fun ws bs name n h => ?_,
    fun n t => ⟨fun lead h => ?_, fun h => ⟨_, Network.forward_error h⟩⟩⟩
  · constructor
    · rintro ⟨l, hl⟩
      obtain ⟨wt, bt, a, hw, hb, ha, hmade⟩ := Layer.ofReadings_eq_ok.1 hl
      obtain ⟨n, hn⟩ := exists_ofTensors.1 ⟨l, hmade⟩
      exact ⟨wt, bt, a, n, hw, hb, ha, hn⟩
    · rintro ⟨wt, bt, a, n, hw, hb, ha, hn⟩
      obtain ⟨l, hl⟩ := (exists_ofTensors (a := a)).2 ⟨n, hn⟩
      exact ⟨l, Layer.ofReadings_eq_ok.2 ⟨wt, bt, a, hw, hb, ha, hl⟩⟩
  · rw [exists_ofLayers, chained_iff]
  · have hmade := LayersOf.of_network h
    rw [ofReadings_eq_ofLayers hmade] at h
    exact ⟨hmade, h⟩
  · obtain ⟨u, hu, hshape, -⟩ := Network.forward_shape h
    exact ⟨u, hu, hshape⟩

/-- The weights and biases of the absolute value have a network, which takes two times three numbers, but neither a
pair nor a number without dimensions. -/
theorem networks_conform_absolute :
    ∃ n : Network Rat, Network.ofReadings [.ok ⟨[2, 1], [1, -1], rfl⟩, .ok ⟨[1, 2], [1, 1], rfl⟩]
        [.ok (.ofVector [0, 0]), .ok (.ofVector [0])] (.text "absolute") = .ok n ∧
      Network.ofLayers n.layers (.text "absolute") = .ok n ∧
      (∃ u, n.forward ⟨[2, 3, 1], [-1, 0, 1, 2, -2, 3], rfl⟩ = .ok u ∧ u.shape = [2, 3, 1]) ∧
      (∃ e, n.forward (.ofVector [1, 2]) = .error e) ∧ ∃ e, n.forward (.single 1) = .error e := by
  obtain ⟨-, -, harrays, hequal, hforward⟩ := @networks_conform Rat _
  have hconform : Conform (α := Rat) [.ok ⟨[2, 1], [1, -1], rfl⟩, .ok ⟨[1, 2], [1, 1], rfl⟩]
      [.ok (.ofVector [0, 0]), .ok (.ofVector [0])] fun k => if k = 1 then 2 else 1 := by
    intro k hk
    have hcases : k = 0 ∨ k = 1 := by
      rw [List.length_cons, List.length_singleton] at hk
      omega
    rcases hcases with rfl | rfl
    · exact ⟨_, _, rfl, rfl, rfl, rfl⟩
    · exact ⟨_, _, rfl, rfl, rfl, rfl⟩
  obtain ⟨n, hn⟩ := (harrays _ _ (.text "absolute")).2 ⟨by rfl, by decide, _, hconform⟩
  have habsolute : Network.ofReadings [.ok ⟨[2, 1], [1, -1], rfl⟩, .ok ⟨[1, 2], [1, 1], rfl⟩]
      [.ok (.ofVector [0, 0]), .ok (.ofVector [0])] (.text "absolute") = .ok .absolute := rfl
  cases hn.symm.trans habsolute
  obtain ⟨htakes, -⟩ := hforward .absolute ⟨[2, 3, 1], [-1, 0, 1, 2, -2, 3], rfl⟩
  obtain ⟨-, hpair⟩ := hforward .absolute (.ofVector [1, 2])
  obtain ⟨-, hsingle⟩ := hforward .absolute (.single 1)
  exact ⟨.absolute, hn, (hequal _ _ _ _ hn).2, htakes [2, 3] rfl, hpair (by decide), hsingle nofun⟩

end ReluMilp
